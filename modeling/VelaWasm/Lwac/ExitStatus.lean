/-
Where the exit status comes from. However the calls of a run of `execute_wasm_module` interleave with
those of other runs and of the printers, it returns what `executeWasmModule` computes from the answers it
is given; and however the instances interleave, `lwac_runtime_init` returns what `lwacRuntimeInit`
computes.
-/
import VelaWasm.Lib.ListSet
import VelaWasm.Lib.Run
import VelaWasm.Lwac.Main
import VelaWasm.Lwac.Runtime

namespace VelaWasm.Lwac

open VelaWasm.Run

/-! ## The exit code of a run -/

/-- Run `i` is given the answers `answers i`. -/
def Answered (answers : ℕ → ModuleAnswers) : LwacAction → Prop
  | .load i handle => handle = (answers i).load
  | .instantiate i handle => handle = (answers i).instantiate
  | .createExecEnv i handle => handle = (answers i).createExecEnv
  | .lookupFunction i exports => exports = (answers i).exports
  | .callWasm i ok => ok = (answers i).callWasm
  | _ => True

/-- The answers lead to the stage; from the first failure on, and after the call of the entry function,
the exit code is settled. -/
def Stage.LedTo (params : ExecParams) (a : ModuleAnswers) : Stage → Prop
  | .load => True
  | .instantiate _ => a.load.isSome
  | .createExecEnv .. => a.load.isSome ∧ a.instantiate.isSome
  | .lookupFunction _ => a.load.isSome ∧ a.instantiate.isSome ∧ a.createExecEnv.isSome
  | .register .. | .callWasm .. =>
    a.load.isSome ∧ a.instantiate.isSome ∧ a.createExecEnv.isSome ∧
      (entryFunction a.exports params.entryFunc).isSome
  | .destroyExecEnv _ _ ret | .unregister _ _ _ ret | .deinstantiate _ _ ret | .unload _ ret | .returned ret =>
    ret = executeWasmModule params a

theorem executeWasmModule_of_called {params : ExecParams} {a : ModuleAnswers} (hload : a.load.isSome)
    (hinst : a.instantiate.isSome) (henv : a.createExecEnv.isSome)
    (hentry : (entryFunction a.exports params.entryFunc).isSome) :
    executeWasmModule params a = if a.callWasm then .success else .failure := by
  obtain ⟨m, hm⟩ := Option.isSome_iff_exists.1 hload
  obtain ⟨inst, hi⟩ := Option.isSome_iff_exists.1 hinst
  obtain ⟨env, he⟩ := Option.isSome_iff_exists.1 henv
  obtain ⟨entry, hf⟩ := Option.isSome_iff_exists.1 hentry
  simp only [executeWasmModule, hm, hi, he, hf]

/-- Every run is where its answers lead it. -/
def RunsLedTo (answers : ℕ → ModuleAnswers) (s : LwacState) : Prop :=
  ∀ (i : ℕ) (e : Execution), s.executions[i]? = some e → e.stage.LedTo e.params (answers i)

variable {answers : ℕ → ModuleAnswers} {profiling : Bool} {s t : LwacState} {i : ℕ} {params : ExecParams}
  {stage : Stage}

theorem runsLedTo_start : RunsLedTo answers .start := fun _ _ h => (by cases h)

/-- A run goes on where its answers lead it. -/
theorem RunsLedTo.enter (h : RunsLedTo answers s) (ht : t.executions = s.executions.set i ⟨params, stage⟩)
    (hs : stage.LedTo params (answers i)) : RunsLedTo answers t := by
  intro j e hj
  rw [ht] at hj
  rcases getElem?_set_some hj with ⟨rfl, rfl⟩ | ⟨-, hj⟩
  · exact hs
  · exact h j e hj

theorem ledTo_execute (h : RunsLedTo answers s) :
    RunsLedTo answers { s with executions := s.executions ++ [⟨params, .load⟩] } := by
  intro j e hj
  rcases getElem?_concat_some hj with hj | ⟨-, rfl⟩
  · exact h j e hj
  · exact trivial

theorem ledTo_load {handle : Option Addr} (h : RunsLedTo answers s) (ha : handle = (answers i).load)
    (ht : s.load i handle = some t) : RunsLedTo answers t := by
  unfold LwacState.load at ht
  split at ht
  · cases ht
    refine h.enter rfl ?_
    simp [Stage.LedTo, executeWasmModule, ← ha]
  · split_ifs at ht
    cases ht
    refine h.enter rfl ?_
    simp [Stage.LedTo, ← ha]
  · cases ht

theorem ledTo_instantiate {handle : Option Addr} (h : RunsLedTo answers s) (ha : handle = (answers i).instantiate)
    (ht : s.instantiate i handle = some t) : RunsLedTo answers t := by
  unfold LwacState.instantiate at ht
  split at ht
  · cases ht
    refine h.enter rfl ?_
    simp [Stage.LedTo, executeWasmModule, ← ha]
  · next hi =>
    split_ifs at ht
    cases ht
    exact h.enter rfl ⟨h i _ hi, by simp [← ha]⟩
  · cases ht

theorem ledTo_createExecEnv {handle : Option Addr} (h : RunsLedTo answers s)
    (ha : handle = (answers i).createExecEnv) (ht : s.createExecEnv i handle = some t) : RunsLedTo answers t := by
  unfold LwacState.createExecEnv at ht
  split at ht
  · cases ht
    refine h.enter rfl ?_
    simp [Stage.LedTo, executeWasmModule, ← ha]
  · next hi =>
    split_ifs at ht
    cases ht
    obtain ⟨hload, hinst⟩ := h i _ hi
    exact h.enter rfl ⟨hload, hinst, by simp [← ha]⟩
  · cases ht

theorem ledTo_lookupFunction {exports : List CString} (h : RunsLedTo answers s)
    (ha : exports = (answers i).exports) (ht : s.lookupFunction i exports = some t) : RunsLedTo answers t := by
  unfold LwacState.lookupFunction at ht
  split at ht
  · next hi =>
    obtain ⟨hload, hinst, henv⟩ := h i _ hi
    rw [ha] at ht
    split at ht
    · next hentry =>
      cases ht
      refine h.enter rfl ?_
      simp [Stage.LedTo, executeWasmModule, hentry]
    · next hentry =>
      cases ht
      exact h.enter rfl ⟨hload, hinst, henv, by simp [hentry]⟩
  · cases ht

theorem ledTo_register {allocated : Bool} {now : Int64} (h : RunsLedTo answers s)
    (ht : s.register i allocated now = some t) : RunsLedTo answers t := by
  unfold LwacState.register at ht
  split at ht
  · next hi =>
    split_ifs at ht
    cases ht
    exact h.enter rfl (h i _ hi)
  · cases ht

theorem ledTo_callWasm {ok : Bool} (h : RunsLedTo answers s) (ha : ok = (answers i).callWasm)
    (ht : s.callWasm i ok = some t) : RunsLedTo answers t := by
  unfold LwacState.callWasm at ht
  split at ht
  · next hi =>
    cases ht
    obtain ⟨hload, hinst, henv, hentry⟩ := h i _ hi
    refine h.enter rfl ?_
    rw [ha]
    exact (executeWasmModule_of_called hload hinst henv hentry).symm
  · cases ht

/-- The cleanup keeps the exit code. -/
theorem ledTo_cleanup (h : RunsLedTo answers s)
    (ht : s.destroyExecEnv i = some t ∨ s.unregister i = some t ∨ s.deinstantiate i = some t ∨ s.unload i = some t) :
    RunsLedTo answers t := by
  rcases ht with ht | ht | ht | ht
  · unfold LwacState.destroyExecEnv at ht
    split at ht
    · next hi => cases ht; exact h.enter rfl (h i _ hi)
    · cases ht
  · unfold LwacState.unregister at ht
    split at ht
    · next hi =>
      split_ifs at ht
      cases ht
      exact h.enter rfl (h i _ hi)
    · cases ht
  · unfold LwacState.deinstantiate at ht
    split at ht
    · next hi => cases ht; exact h.enter rfl (h i _ hi)
    · cases ht
  · unfold LwacState.unload at ht
    split at ht
    · next hi => cases ht; exact h.enter rfl (h i _ hi)
    · cases ht

theorem executions_printRow {j : ℕ} {heapInfo : Option MemAllocInfo} {aux : Option UInt32}
    (ht : s.printRow profiling j heapInfo aux = some t) : t.executions = s.executions := by
  obtain ⟨p, -, ht⟩ := Option.bind_eq_some_iff.1 ht
  obtain ⟨q, -, rfl⟩ := Option.map_eq_some_iff.1 ht
  rfl

theorem executions_printEnd {j : ℕ} (ht : s.printEnd j = some t) : t.executions = s.executions := by
  unfold LwacState.printEnd at ht
  split at ht <;> cases ht
  rfl

theorem runsLedTo_step {a : LwacAction} (h : RunsLedTo answers s) (ha : Answered answers a)
    (ht : lwacStep profiling s a = some t) : RunsLedTo answers t := by
  cases a with
  | execute params => cases ht; exact ledTo_execute h
  | load i handle => exact ledTo_load h ha ht
  | instantiate i handle => exact ledTo_instantiate h ha ht
  | createExecEnv i handle => exact ledTo_createExecEnv h ha ht
  | lookupFunction i exports => exact ledTo_lookupFunction h ha ht
  | register i allocated now => exact ledTo_register h ht
  | callWasm i ok => exact ledTo_callWasm h ha ht
  | destroyExecEnv i => exact ledTo_cleanup h (.inl ht)
  | unregister i => exact ledTo_cleanup h (.inr (.inl ht))
  | deinstantiate i => exact ledTo_cleanup h (.inr (.inr (.inl ht)))
  | unload i => exact ledTo_cleanup h (.inr (.inr (.inr ht)))
  | printStart now => cases ht; exact h
  | printRow j heapInfo aux => exact fun k e hk => h k e (executions_printRow ht ▸ hk)
  | printEnd j => exact fun k e hk => h k e (executions_printEnd ht ▸ hk)

/-- A run that has returned has returned what `executeWasmModule` computes from its answers, whatever
the other runs and the printers did meanwhile. -/
theorem returned_eq_executeWasmModule {as : List LwacAction} {ret : ExitCode}
    (ha : Meets (lwacStep profiling) (fun _ a => Answered answers a) .start as)
    (h : exec (lwacStep profiling) .start as = some s) (hi : s.executions[i]? = some ⟨params, .returned ret⟩) :
    ret = executeWasmModule params (answers i) :=
  exec_invariant (fun _ _ _ hs hok ht => runsLedTo_step hs hok ht) runsLedTo_start ha h i _ hi

/-- A program that is ready to execute its module ends with the exit code of its run. -/
theorem main_eq_returned {L : Libc} {argv : List CString} {a : Answers} {args : LwacArgs} {as : List LwacAction}
    {ret : ExitCode} (hp : parseArguments L argv = .ok args) (hps : args.showPs = false) (hr : Ready a args)
    (ha : Meets (lwacStep profiling) (fun _ b => Answered answers b) .start as)
    (h : exec (lwacStep profiling) .start as = some s)
    (hi : s.executions[i]? = some ⟨args.params, .returned ret⟩) (hans : answers i = a.wasm) :
    main L argv a = ret.toInt32 := by
  have hret := returned_eq_executeWasmModule ha h hi
  rw [hans] at hret
  rw [main_of_ready hp hps hr, hret]

/-! ## The result of the runtime's init -/

/-- An instance is given the answers `answers i`: the references it finds when it has locked the mutex,
and what `wasm_runtime_init` and the external modules return. -/
def InitAnswered (modules : ℕ) (answers : ℕ → RuntimeAnswers) (s : RuntimeState) : RuntimeAction → Prop
  | .enter => True
  | .next i answer =>
    match s.instances[i]? with
    | some .lockInit => s.refCount = (answers i).refCount
    | some .runtimeInit => answer = (answers i).runtimeInit
    | some (.registerModule j) => j < modules → (answers i).modules[j]? = some answer
    | _ => True

/-- The answers lead to the place; from the increment on, the result is settled. -/
def InstancePc.LedTo (refCount : ℤ) (a : RuntimeAnswers) : InstancePc → Prop
  | .testRefCount => refCount = a.refCount
  | .runtimeInit => a.refCount = 0
  | .registerModule j => a.refCount = 0 ∧ a.runtimeInit = true ∧ (a.modules.take j).all id = true
  | .increment => lwacRuntimeInit a = 0
  | .unlockInit ret => ret = lwacRuntimeInit a
  | _ => True

/-- Every instance is where its answers lead it, and has the mutex when it is in a critical section. -/
structure InitsLedTo (answers : ℕ → RuntimeAnswers) (s : RuntimeState) : Prop where
  exclusive : ∀ (i : ℕ) (pc : InstancePc), s.instances[i]? = some pc → pc.locked = true → s.mutex = some i
  led : ∀ (i : ℕ) (pc : InstancePc), s.instances[i]? = some pc → pc.LedTo s.refCount (answers i)

section

variable {modules : ℕ} {answers : ℕ → RuntimeAnswers} {s t : RuntimeState} {i : ℕ} {pc pc' : InstancePc}

theorem ledTo_of_not_locked {refCount : ℤ} {a : RuntimeAnswers} (h : pc.locked ≠ true) : pc.LedTo refCount a := by
  cases pc <;> first | exact trivial | exact absurd rfl h

theorem initsLedTo_start : InitsLedTo answers .start :=
  ⟨fun _ _ h => (by cases h), fun _ _ h => (by cases h)⟩

/-- A step of the instance `i`, which has the mutex or finds it free. -/
theorem InitsLedTo.goto {refCount : ℤ} {mutex : Option ℕ} {inits destroys : ℕ} (h : InitsLedTo answers s)
    (hm : s.mutex = none ∨ s.mutex = some i) (hm' : pc'.locked = true → mutex = some i)
    (hled : pc'.LedTo refCount (answers i)) :
    InitsLedTo answers ⟨refCount, mutex, inits, destroys, s.instances.set i pc'⟩ := by
  have hother : ∀ (j : ℕ) (pc : InstancePc), j ≠ i → s.instances[j]? = some pc → pc.locked ≠ true := by
    intro j pc hj hpc hl
    have hmj := h.exclusive j pc hpc hl
    rcases hm with hm | hm <;> rw [hm] at hmj <;> cases hmj
    exact hj rfl
  constructor
  · intro j pc hj hl
    rcases getElem?_set_some hj with ⟨rfl, rfl⟩ | ⟨hji, hj⟩
    · exact hm' hl
    · exact absurd hl (hother j pc hji hj)
  · intro j pc hj
    rcases getElem?_set_some hj with ⟨rfl, rfl⟩ | ⟨hji, hj⟩
    · exact hled
    · exact ledTo_of_not_locked (hother j pc hji hj)

theorem initsLedTo_enter (h : InitsLedTo answers s) :
    InitsLedTo answers { s with instances := s.instances ++ [.lockInit] } := by
  constructor
  · intro j pc hj hl
    rcases getElem?_concat_some hj with hj | ⟨-, rfl⟩
    · exact h.exclusive j pc hj hl
    · cases hl
  · intro j pc hj
    rcases getElem?_concat_some hj with hj | ⟨-, rfl⟩
    · exact h.led j pc hj
    · exact trivial

/-- The result once the registrations are over, and at one that fails. -/
theorem lwacRuntimeInit_registered {a : RuntimeAnswers} (hz : a.refCount = 0) (hi : a.runtimeInit = true) :
    lwacRuntimeInit a = if a.modules.all id then 0 else -1 := by
  simp [lwacRuntimeInit, hz, hi]

theorem all_take_succ {l : List Bool} {j : ℕ} {b : Bool} (h : l[j]? = some b) :
    (l.take (j + 1)).all id = ((l.take j).all id && b) := by
  rw [List.take_add_one, h]
  simp

theorem initsLedTo_next {answer : Bool} (hlen : ∀ i, (answers i).modules.length = modules) (h : InitsLedTo answers s)
    (hpc : s.instances[i]? = some pc) (ha : InitAnswered modules answers s (.next i answer))
    (ht : s.next modules i answer pc = some t) : InitsLedTo answers t := by
  have held : pc.locked = true → s.mutex = some i := h.exclusive i pc hpc
  have hled := h.led i pc hpc
  simp only [InitAnswered, hpc] at ha
  cases pc with
  | lockInit =>
    simp only [RuntimeState.next] at ht
    split_ifs at ht with hm
    cases ht
    exact h.goto (.inl hm) (fun _ => rfl) ha
  | testRefCount =>
    cases ht
    have hm := held rfl
    refine h.goto (.inr hm) (fun _ => hm) ?_
    split_ifs with hz
    · exact hled.symm.trans hz
    · have hne : (answers i).refCount ≠ 0 := fun he => hz (hled.trans he)
      exact if_neg hne
  | runtimeInit =>
    have hm := held rfl
    simp only [RuntimeState.next] at ht
    split_ifs at ht with hans <;> cases ht
    · exact h.goto (.inr hm) (fun _ => hm) ⟨hled, ha ▸ hans, rfl⟩
    · refine h.goto (.inr hm) (fun _ => hm) ?_
      rw [ha, Bool.not_eq_true] at hans
      simp [InstancePc.LedTo, lwacRuntimeInit, show (answers i).refCount = 0 from hled, hans]
  | registerModule j =>
    have hm := held rfl
    obtain ⟨hz, hup, hall⟩ := hled
    have hinit := lwacRuntimeInit_registered hz hup
    simp only [RuntimeState.next] at ht
    split_ifs at ht with hj hans <;> cases ht
    · refine h.goto (.inr hm) (fun _ => hm) ⟨hz, hup, ?_⟩
      rw [all_take_succ (ha hj), hall, hans]
      rfl
    · refine h.goto (.inr hm) (fun _ => hm) ?_
      have hmem : false ∈ (answers i).modules := by
        rw [Bool.not_eq_true] at hans
        exact hans ▸ List.mem_of_getElem? (ha hj)
      rw [InstancePc.LedTo, hinit, if_neg]
      exact fun hall => Bool.false_ne_true (List.all_eq_true.1 hall _ hmem)
    · refine h.goto (.inr hm) (fun _ => hm) ?_
      rw [List.take_of_length_le ((hlen i).trans_le (Nat.le_of_not_lt hj))] at hall
      rw [InstancePc.LedTo, hinit, if_pos hall]
  | increment =>
    have hm := held rfl
    simp only [RuntimeState.next] at ht
    split_ifs at ht
    cases ht
    exact h.goto (.inr hm) (fun _ => hm) (Eq.symm hled)
  | unlockInit ret =>
    cases ht
    refine h.goto (.inr (held rfl)) (fun hl => ?_) ?_
    · split_ifs at hl <;> cases hl
    · split_ifs <;> trivial
  | lockDestroy =>
    simp only [RuntimeState.next] at ht
    split_ifs at ht with hm
    cases ht
    exact h.goto (.inl hm) (fun _ => rfl) trivial
  | decrement => cases ht; exact h.goto (.inr (held rfl)) (fun _ => held rfl) trivial
  | testLast =>
    cases ht
    refine h.goto (.inr (held rfl)) (fun _ => held rfl) ?_
    split_ifs <;> trivial
  | runtimeDestroy => cases ht; exact h.goto (.inr (held rfl)) (fun _ => held rfl) trivial
  | unlockDestroy => cases ht; exact h.goto (.inr (held rfl)) (fun hl => (by cases hl)) trivial
  | ended => cases ht

theorem initsLedTo_step {a : RuntimeAction} (hlen : ∀ i, (answers i).modules.length = modules)
    (h : InitsLedTo answers s) (ha : InitAnswered modules answers s a) (ht : runtimeStep modules s a = some t) :
    InitsLedTo answers t := by
  cases a with
  | enter => cases ht; exact initsLedTo_enter h
  | next i answer =>
    obtain ⟨pc, hpc, ht⟩ := Option.bind_eq_some_iff.1 ht
    exact initsLedTo_next hlen h hpc ha ht

/-- An init on its way out returns what `lwacRuntimeInit` computes from its answers. -/
theorem unlocked_eq_lwacRuntimeInit {as : List RuntimeAction} {ret : Int32}
    (hlen : ∀ i, (answers i).modules.length = modules)
    (ha : Meets (runtimeStep modules) (InitAnswered modules answers) .start as)
    (h : exec (runtimeStep modules) .start as = some s) (hi : s.instances[i]? = some (.unlockInit ret)) :
    ret = lwacRuntimeInit (answers i) :=
  (exec_invariant (fun _ _ _ hs hok ht => initsLedTo_step hlen hs hok ht) initsLedTo_start ha h).led i _ hi

end

end VelaWasm.Lwac
