/-
What a run of `execute_wasm_module` acquires and releases with each call it makes, and the registry in any run
of the system: as long as no handle of a live instance is handed out again, it lists exactly the records of the
runs that have registered and not unregistered, each under an instance of its own.
-/
import VelaWasm.Lib.Ledger
import VelaWasm.Lwac.LiveHandles

namespace VelaWasm.Lwac

open VelaWasm.Run

/-! ## Resources -/

/-- What a run of `lwac` acquires. -/
inductive Resource where
  | fd (fd : Int32)
  | buffer (content : Addr)
  /-- a mapping, with the length that `mmap` or `munmap` is given -/
  | mapping (content : Addr) (length : UInt32)
  | wasmModule (module : Addr)
  | moduleInst (moduleInst : Addr)
  | execEnv (execEnv : Addr)
  | moduleInfo (moduleInfo : WasmModuleInfo)
  deriving DecidableEq, Repr

/-- What a run of `execute_wasm_module` holds, the latest first. -/
def Execution.held (e : Execution) : List Resource :=
  e.moduleInfo?.toList.map .moduleInfo ++ (e.execEnv?.toList.map .execEnv ++
    (e.moduleInst?.toList.map .moduleInst ++ e.wasmModule?.toList.map .wasmModule))

/-- What a call acquires. -/
def LwacState.acquires (s : LwacState) : LwacAction → List Resource
  | .load _ handle => handle.toList.map .wasmModule
  | .instantiate _ handle => handle.toList.map .moduleInst
  | .createExecEnv _ handle => handle.toList.map .execEnv
  | .register i allocated now =>
    match s.executions[i]? with
    | some ⟨params, .register h _⟩ =>
      (lwacRegisterWasmModule s.registry allocated now params.registeredName params.stackSize params.heapSize
        h.wasmModule h.moduleInst h.execEnv).2.toList.map .moduleInfo
    | _ => []
  | _ => []

/-- What a call releases: the handle it is given, or the record that `lwac__unregister_wasm_module` frees. -/
def LwacState.releases (s : LwacState) : LwacAction → List Resource
  | .destroyExecEnv i =>
    match s.executions[i]? with
    | some ⟨_, .destroyExecEnv h _ _⟩ => [.execEnv h.execEnv]
    | _ => []
  | .unregister i =>
    match s.executions[i]? with
    | some ⟨_, .unregister _ inst _ _⟩ =>
      (s.registry.moduleListHead.find? fun m => m.moduleInst = inst).toList.map .moduleInfo
    | _ => []
  | .deinstantiate i =>
    match s.executions[i]? with
    | some ⟨_, .deinstantiate _ inst _⟩ => [.moduleInst inst]
    | _ => []
  | .unload i =>
    match s.executions[i]? with
    | some ⟨_, .unload m _⟩ => [.wasmModule m]
    | _ => []
  | _ => []

/-! ## Calls -/

/-- The run that makes the call. -/
def LwacAction.caller : LwacAction → Option ℕ
  | .load i _ | .instantiate i _ | .createExecEnv i _ | .lookupFunction i _ | .register i _ _ | .callWasm i _
  | .destroyExecEnv i | .unregister i | .deinstantiate i | .unload i => some i
  | .execute _ | .printStart _ | .printRow .. | .printEnd _ => none

/-- The calls of a run: the stages before and after, what is acquired and released, the live instances and the
registry afterwards. -/
inductive Call (s : LwacState) : Stage → Stage → List Resource → List Resource → Finset Addr → Registry → Prop where
  | loadFails : Call s .load (.returned .failure) [] [] s.moduleInsts s.registry
  | load (m : Addr) : Call s .load (.instantiate m) [.wasmModule m] [] s.moduleInsts s.registry
  | instantiateFails (m : Addr) : Call s (.instantiate m) (.unload m .failure) [] [] s.moduleInsts s.registry
  | instantiate (m inst : Addr) (hnew : inst ∉ s.moduleInsts) :
    Call s (.instantiate m) (.createExecEnv m inst) [.moduleInst inst] [] (insert inst s.moduleInsts) s.registry
  | createExecEnvFails (m inst : Addr) :
    Call s (.createExecEnv m inst) (.deinstantiate m inst .failure) [] [] s.moduleInsts s.registry
  | createExecEnv (m inst env : Addr) :
    Call s (.createExecEnv m inst) (.lookupFunction ⟨m, inst, env⟩) [.execEnv env] [] s.moduleInsts s.registry
  | lookupFails (h : Handles) :
    Call s (.lookupFunction h) (.destroyExecEnv h none .failure) [] [] s.moduleInsts s.registry
  | lookup (h : Handles) (entry : CString) :
    Call s (.lookupFunction h) (.register h entry) [] [] s.moduleInsts s.registry
  | registerFails (h : Handles) (entry : CString) :
    Call s (.register h entry) (.callWasm h entry none) [] [] s.moduleInsts s.registry
  | register (h : Handles) (entry : CString) (m : WasmModuleInfo) (counter : UInt32)
    (hm : m.moduleInst = h.moduleInst) :
    Call s (.register h entry) (.callWasm h entry (some m)) [.moduleInfo m] [] s.moduleInsts
      ⟨m :: s.registry.moduleListHead, counter⟩
  | callWasm (h : Handles) (entry : CString) (info : Option WasmModuleInfo) (ret : ExitCode) :
    Call s (.callWasm h entry info) (.destroyExecEnv h info ret) [] [] s.moduleInsts s.registry
  | destroyExecEnv (h : Handles) (info : Option WasmModuleInfo) (ret : ExitCode) :
    Call s (.destroyExecEnv h info ret) (.unregister h.wasmModule h.moduleInst info ret) [] [.execEnv h.execEnv]
      s.moduleInsts s.registry
  | unregister (m inst : Addr) (info : Option WasmModuleInfo) (ret : ExitCode) :
    Call s (.unregister m inst info ret) (.deinstantiate m inst ret) []
      ((s.registry.moduleListHead.find? fun m => m.moduleInst = inst).toList.map .moduleInfo) s.moduleInsts
      (lwacUnregisterWasmModule s.registry inst).1
  | deinstantiate (m inst : Addr) (ret : ExitCode) :
    Call s (.deinstantiate m inst ret) (.unload m ret) [] [.moduleInst inst] (s.moduleInsts.erase inst) s.registry
  | unload (m : Addr) (ret : ExitCode) :
    Call s (.unload m ret) (.returned ret) [] [.wasmModule m] s.moduleInsts s.registry

variable {s t : LwacState} {i : ℕ} {profiling : Bool}

/-- A call of run `i`, which leaves the other runs as they are. -/
def Calls (s : LwacState) (i : ℕ) (acquired released : List Resource) (t : LwacState) : Prop :=
  ∃ params stage stage', s.executions[i]? = some ⟨params, stage⟩ ∧
    t.executions = s.executions.set i ⟨params, stage'⟩ ∧ Call s stage stage' acquired released t.moduleInsts t.registry

theorem calls_of_call {params : ExecParams} {stage stage' : Stage} {acquired released : List Resource}
    (hi : s.executions[i]? = some ⟨params, stage⟩) (ht : t.executions = s.executions.set i ⟨params, stage'⟩)
    (h : Call s stage stage' acquired released t.moduleInsts t.registry) : Calls s i acquired released t :=
  ⟨params, stage, stage', hi, ht, h⟩

section

variable {handle : Option Addr}

theorem load_calls (h : s.load i handle = some t) : Calls s i (handle.toList.map .wasmModule) [] t := by
  unfold LwacState.load at h
  split at h
  · next hi =>
    cases h
    exact calls_of_call hi rfl .loadFails
  · next m hi =>
    split_ifs at h
    cases h
    exact calls_of_call hi rfl (.load m)
  · cases h

theorem instantiate_calls (h : s.instantiate i handle = some t) :
    Calls s i (handle.toList.map .moduleInst) [] t := by
  unfold LwacState.instantiate at h
  split at h
  · next m hi =>
    cases h
    exact calls_of_call hi rfl (.instantiateFails m)
  · next m inst hi =>
    split_ifs at h with hnew
    cases h
    exact calls_of_call hi rfl (.instantiate m inst hnew.2)
  · cases h

theorem createExecEnv_calls (h : s.createExecEnv i handle = some t) :
    Calls s i (handle.toList.map .execEnv) [] t := by
  unfold LwacState.createExecEnv at h
  split at h
  · next m inst hi =>
    cases h
    exact calls_of_call hi rfl (.createExecEnvFails m inst)
  · next m inst env hi =>
    split_ifs at h
    cases h
    exact calls_of_call hi rfl (.createExecEnv m inst env)
  · cases h

end

theorem lookupFunction_calls {exports : List CString} (h : s.lookupFunction i exports = some t) :
    Calls s i [] [] t := by
  unfold LwacState.lookupFunction at h
  split at h
  · next hs hi =>
    split at h <;> cases h
    · exact calls_of_call hi rfl (.lookupFails hs)
    · exact calls_of_call hi rfl (.lookup hs _)
  · cases h

theorem register_calls {allocated : Bool} {now : Int64} (h : s.register i allocated now = some t) :
    Calls s i (s.acquires (.register i allocated now)) [] t := by
  unfold LwacState.register at h
  split at h
  · next hs entry hi =>
    split_ifs at h
    cases h
    simp only [LwacState.acquires, hi]
    cases allocated with
    | false => exact calls_of_call hi rfl (.registerFails hs entry)
    | true => exact calls_of_call hi rfl (.register hs entry _ _ rfl)
  · cases h

theorem callWasm_calls {ok : Bool} (h : s.callWasm i ok = some t) : Calls s i [] [] t := by
  unfold LwacState.callWasm at h
  split at h
  · next hs entry info hi =>
    cases h
    exact calls_of_call hi rfl (.callWasm hs entry info _)
  · cases h

theorem destroyExecEnv_calls (h : s.destroyExecEnv i = some t) :
    Calls s i [] (s.releases (.destroyExecEnv i)) t := by
  unfold LwacState.destroyExecEnv at h
  split at h
  · next hs info ret hi =>
    cases h
    simp only [LwacState.releases, hi]
    exact calls_of_call hi rfl (.destroyExecEnv hs info ret)
  · cases h

theorem unregister_calls (h : s.unregister i = some t) : Calls s i [] (s.releases (.unregister i)) t := by
  unfold LwacState.unregister at h
  split at h
  · next m inst info ret hi =>
    split_ifs at h
    cases h
    simp only [LwacState.releases, hi]
    exact calls_of_call hi rfl (.unregister m inst info ret)
  · cases h

theorem deinstantiate_calls (h : s.deinstantiate i = some t) : Calls s i [] (s.releases (.deinstantiate i)) t := by
  unfold LwacState.deinstantiate at h
  split at h
  · next m inst ret hi =>
    cases h
    simp only [LwacState.releases, hi]
    exact calls_of_call hi rfl (.deinstantiate m inst ret)
  · cases h

theorem unload_calls (h : s.unload i = some t) : Calls s i [] (s.releases (.unload i)) t := by
  unfold LwacState.unload at h
  split at h
  · next m ret hi =>
    cases h
    simp only [LwacState.releases, hi]
    exact calls_of_call hi rfl (.unload m ret)
  · cases h

/-- What a step of run `i` does. -/
theorem lwacStep_calls {a : LwacAction} (ha : a.caller = some i) (h : lwacStep profiling s a = some t) :
    Calls s i (s.acquires a) (s.releases a) t := by
  cases a with
  | load => cases ha; exact load_calls h
  | instantiate => cases ha; exact instantiate_calls h
  | createExecEnv => cases ha; exact createExecEnv_calls h
  | lookupFunction => cases ha; exact lookupFunction_calls h
  | register => cases ha; exact register_calls h
  | callWasm => cases ha; exact callWasm_calls h
  | destroyExecEnv => cases ha; exact destroyExecEnv_calls h
  | unregister => cases ha; exact unregister_calls h
  | deinstantiate => cases ha; exact deinstantiate_calls h
  | unload => cases ha; exact unload_calls h
  | execute => cases ha
  | printStart => cases ha
  | printRow => cases ha
  | printEnd => cases ha

/-! ## The invariant -/

/-- Each run holds a live instance of its own, and the registry lists the records of the runs, each under the
instance that its run holds. -/
structure EntriesInv (s : LwacState) : Prop where
  moduleInsts : Held Execution.moduleInst? s.executions s.moduleInsts
  denotes : ∀ (i : ℕ) (e : Execution) (m : WasmModuleInfo), s.executions[i]? = some e → e.moduleInfo? = some m →
    e.moduleInst? = some m.moduleInst
  listed : ∀ m, m ∈ s.registry.moduleListHead ↔ Owned Execution.moduleInfo? s.executions m
  distinct : (s.registry.moduleListHead.map WasmModuleInfo.moduleInst).Nodup

theorem entriesInv_start : EntriesInv .start :=
  ⟨.nil, fun _ _ _ h => (by cases h), fun _ => ⟨fun h => (by cases h), fun ⟨_, _, h, _⟩ => (by cases h)⟩, .nil⟩

section

variable {params : ExecParams} {stage stage' : Stage} {inst : Addr}

/-- A record of the instance that a run holds is the record of that run. -/
theorem EntriesInv.own (h : EntriesInv s) {e : Execution} (hi : s.executions[i]? = some e)
    (hinst : e.moduleInst? = some inst) {m : WasmModuleInfo} (hm : m ∈ s.registry.moduleListHead)
    (hmi : m.moduleInst = inst) : e.moduleInfo? = some m := by
  obtain ⟨j, e', hj, hinfo⟩ := (h.listed m).1 hm
  have hji : j = i := h.moduleInsts.unique j i e' e inst hj hi (hmi ▸ h.denotes j e' m hj hinfo) hinst
  subst hji
  rw [hi] at hj
  cases hj
  exact hinfo

/-- `lwac__unregister_wasm_module` finds the record of the run that calls it. -/
theorem EntriesInv.find (h : EntriesInv s) {e : Execution} (hi : s.executions[i]? = some e)
    (hinst : e.moduleInst? = some inst) :
    s.registry.moduleListHead.find? (fun m => m.moduleInst = inst) = e.moduleInfo? := by
  cases hf : s.registry.moduleListHead.find? fun m => m.moduleInst = inst with
  | some m =>
    obtain ⟨hm, hmi⟩ := of_find?_key hf
    exact (h.own hi hinst hm hmi).symm
  | none =>
    cases hinfo : e.moduleInfo? with
    | none => rfl
    | some m =>
      have hm : m ∈ s.registry.moduleListHead := (h.listed m).2 ⟨i, e, hi, hinfo⟩
      have hmi : m.moduleInst = inst := Option.some.inj ((h.denotes i e m hi hinfo).symm.trans hinst)
      have hne := List.find?_eq_none.1 hf m hm
      simp [hmi] at hne

/-- A run that keeps its record. -/
theorem EntriesInv.goOn (h : EntriesInv s) (hi : s.executions[i]? = some ⟨params, stage⟩)
    (ht : t.executions = s.executions.set i ⟨params, stage'⟩) (hr : t.registry = s.registry)
    (hinfo : Execution.moduleInfo? ⟨params, stage'⟩ = Execution.moduleInfo? ⟨params, stage⟩)
    (hden : ∀ m, Execution.moduleInfo? ⟨params, stage'⟩ = some m →
      Execution.moduleInst? ⟨params, stage'⟩ = some m.moduleInst)
    (hn : Held Execution.moduleInst? t.executions t.moduleInsts) : EntriesInv t where
  moduleInsts := hn
  denotes j e m hj hm := by
    rw [ht] at hj
    rcases getElem?_set_some hj with ⟨-, rfl⟩ | ⟨-, hj⟩
    · exact hden m hm
    · exact h.denotes j e m hj hm
  listed m := by
    rw [hr, ht, owned_set_iff hi hinfo]
    exact h.listed m
  distinct := by
    rw [hr]
    exact h.distinct

/-- A run without a record that gets one. -/
theorem EntriesInv.register (h : EntriesInv s) {m : WasmModuleInfo} {counter : UInt32}
    (hi : s.executions[i]? = some ⟨params, stage⟩) (ht : t.executions = s.executions.set i ⟨params, stage'⟩)
    (hr : t.registry = ⟨m :: s.registry.moduleListHead, counter⟩) (hinsts : t.moduleInsts = s.moduleInsts)
    (hnone : Execution.moduleInfo? ⟨params, stage⟩ = none)
    (hinfo : Execution.moduleInfo? ⟨params, stage'⟩ = some m)
    (hinst : Execution.moduleInst? ⟨params, stage⟩ = some m.moduleInst)
    (hsame : Execution.moduleInst? ⟨params, stage'⟩ = Execution.moduleInst? ⟨params, stage⟩) : EntriesInv t where
  moduleInsts := by
    rw [ht, hinsts]
    exact h.moduleInsts.set hi hsame
  denotes j e k hj hk := by
    rw [ht] at hj
    rcases getElem?_set_some hj with ⟨-, rfl⟩ | ⟨-, hj⟩
    · cases hinfo.symm.trans hk
      exact hsame.trans hinst
    · exact h.denotes j e k hj hk
  listed k := by
    rw [hr, ht, owned_set_acquire_iff hi hnone hinfo, List.mem_cons]
    exact or_congr_right (h.listed k)
  distinct := by
    rw [hr, List.map_cons, List.nodup_cons]
    refine ⟨fun hm => ?_, h.distinct⟩
    obtain ⟨k, hk, hki⟩ := List.mem_map.1 hm
    cases hnone.symm.trans (h.own hi hinst hk hki)

/-- A run that unregisters: only its own record is unlinked. -/
theorem EntriesInv.unregister (h : EntriesInv s) (hi : s.executions[i]? = some ⟨params, stage⟩)
    (ht : t.executions = s.executions.set i ⟨params, stage'⟩)
    (hr : t.registry = (lwacUnregisterWasmModule s.registry inst).1) (hinsts : t.moduleInsts = s.moduleInsts)
    (hinst : Execution.moduleInst? ⟨params, stage⟩ = some inst)
    (hsame : Execution.moduleInst? ⟨params, stage'⟩ = Execution.moduleInst? ⟨params, stage⟩)
    (hnone : Execution.moduleInfo? ⟨params, stage'⟩ = none) : EntriesInv t where
  moduleInsts := by
    rw [ht, hinsts]
    exact h.moduleInsts.set hi hsame
  denotes j e k hj hk := by
    rw [ht] at hj
    rcases getElem?_set_some hj with ⟨-, rfl⟩ | ⟨-, hj⟩
    · cases hnone.symm.trans hk
    · exact h.denotes j e k hj hk
  listed k := by
    rw [hr, lwacUnregister_moduleListHead]
    constructor
    · intro hk
      have hki : k.moduleInst ≠ inst := ne_of_mem_eraseP h.distinct hk
      obtain ⟨j, e, hj, hinfo⟩ := (h.listed k).1 (List.mem_of_mem_eraseP hk)
      have hji : i ≠ j := by
        rintro rfl
        rw [hi] at hj
        cases hj
        exact hki (Option.some.inj ((h.denotes i _ k hi hinfo).symm.trans hinst))
      exact ⟨j, e, by rw [ht, List.getElem?_set_ne hji, hj], hinfo⟩
    · rintro ⟨j, e, hj, hinfo⟩
      rw [ht] at hj
      rcases getElem?_set_some hj with ⟨-, rfl⟩ | ⟨hji, hj⟩
      · cases hnone.symm.trans hinfo
      · have hki : k.moduleInst ≠ inst := by
          rintro rfl
          exact hji (h.moduleInsts.unique j i e _ _ hj hi (h.denotes j e k hj hinfo) hinst)
        exact (List.mem_eraseP_of_neg (by simpa using hki)).2 ((h.listed k).2 ⟨j, e, hj, hinfo⟩)
  distinct := by
    rw [hr, lwacUnregister_moduleListHead]
    exact h.distinct.sublist (List.eraseP_sublist.map _)

end

/-! ## Steps -/

theorem EntriesInv.calls {acquired released : List Resource} (h : EntriesInv s)
    (hc : Calls s i acquired released t) : EntriesInv t := by
  obtain ⟨params, stage, stage', hi, ht, hc⟩ := hc
  have hdone : ∀ {e : Execution}, e.moduleInfo? = none →
      ∀ m, e.moduleInfo? = some m → e.moduleInst? = some m.moduleInst := by
    intro e he m hm
    cases he.symm.trans hm
  have hset : t.moduleInsts = s.moduleInsts →
      Execution.moduleInst? ⟨params, stage'⟩ = Execution.moduleInst? ⟨params, stage⟩ →
      Held Execution.moduleInst? t.executions t.moduleInsts := by
    intro hinsts hsame
    rw [ht, hinsts]
    exact h.moduleInsts.set hi hsame
  generalize hn : t.moduleInsts = insts at hc hset
  generalize hr : t.registry = registry at hc
  cases hc with
  | instantiate m inst hnew =>
    refine h.goOn hi ht hr rfl (hdone rfl) ?_
    rw [ht, hn]
    exact h.moduleInsts.acquire hi rfl rfl hnew
  | deinstantiate m inst ret =>
    refine h.goOn hi ht hr rfl (hdone rfl) ?_
    rw [ht, hn]
    exact h.moduleInsts.release hi rfl rfl
  | register hs entry m counter hm =>
    exact h.register hi ht hr hn rfl rfl (congrArg some hm.symm) rfl
  | unregister m inst info ret => exact h.unregister hi ht hr hn rfl rfl rfl
  | callWasm hs entry info ret =>
    exact h.goOn hi ht hr rfl (h.denotes i ⟨params, .callWasm hs entry info⟩ · hi) (hn ▸ hset rfl rfl)
  | destroyExecEnv hs info ret =>
    exact h.goOn hi ht hr rfl (h.denotes i ⟨params, .destroyExecEnv hs info ret⟩ · hi) (hn ▸ hset rfl rfl)
  | _ => exact h.goOn hi ht hr rfl (hdone rfl) (hn ▸ hset rfl rfl)

/-- What a call acquires or releases is what the run holds more or less after it. -/
theorem held_calls {acquired released : List Resource} (h : EntriesInv s) (hc : Calls s i acquired released t) :
    ∃ e e', s.executions[i]? = some e ∧ t.executions = s.executions.set i e' ∧
      (acquired ++ e.held).Perm (released ++ e'.held) := by
  obtain ⟨params, stage, stage', hi, ht, hc⟩ := hc
  refine ⟨⟨params, stage⟩, ⟨params, stage'⟩, hi, ht, ?_⟩
  generalize t.moduleInsts = insts at hc
  generalize t.registry = registry at hc
  cases hc with
  | destroyExecEnv hs info ret =>
    -- the record was acquired after the exec env and is still held
    exact List.perm_middle
  | unregister m inst info ret =>
    rw [h.find hi rfl]
    exact List.Perm.refl _
  | _ => exact List.Perm.refl _

theorem EntriesInv.congr (h : EntriesInv s) (he : t.executions = s.executions) (hn : t.moduleInsts = s.moduleInsts)
    (hr : t.registry = s.registry) : EntriesInv t := by
  refine ⟨?_, fun j e m hj => ?_, fun m => ?_, ?_⟩
  · rw [he, hn]
    exact h.moduleInsts
  · rw [he] at hj
    exact h.denotes j e m hj
  · rw [he, hr]
    exact h.listed m
  · rw [hr]
    exact h.distinct

/-- A new run, which holds nothing. -/
theorem EntriesInv.execute {params : ExecParams} (h : EntriesInv s) :
    EntriesInv { s with executions := s.executions ++ [⟨params, .load⟩] } where
  moduleInsts := h.moduleInsts.append rfl
  denotes j e m hj hm := by
    rcases getElem?_concat_some hj with hj | ⟨-, rfl⟩
    · exact h.denotes j e m hj hm
    · cases hm
  listed m := (h.listed m).trans (owned_append_iff rfl).symm
  distinct := h.distinct

/-- The printers change nothing but themselves. -/
theorem printers_frame {a : LwacAction} (ha : a.caller = none) (hne : ∀ params, a ≠ .execute params)
    (h : lwacStep profiling s a = some t) :
    t.executions = s.executions ∧ t.moduleInsts = s.moduleInsts ∧ t.registry = s.registry := by
  cases a with
  | execute params => exact absurd rfl (hne params)
  | printStart =>
    cases h
    exact ⟨rfl, rfl, rfl⟩
  | printRow j heapInfo aux =>
    obtain ⟨p, -, hp⟩ := Option.bind_eq_some_iff.1 h
    obtain ⟨q, -, rfl⟩ := Option.map_eq_some_iff.1 hp
    exact ⟨rfl, rfl, rfl⟩
  | printEnd j =>
    simp only [lwacStep, LwacState.printEnd] at h
    split at h <;> cases h
    exact ⟨rfl, rfl, rfl⟩
  | _ => cases ha

end VelaWasm.Lwac
