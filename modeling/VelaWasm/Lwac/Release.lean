/-
Every run of `lwac` that returns has released what it acquired, whatever fails on its way and whatever the other
runs do meanwhile: its descriptor, file content, module, instance, exec env and registry entry, and its share of
the reference count. What a run holds at each step is what its ledger says it has not released.
-/
import VelaWasm.Lwac.Processes
import Mathlib.Data.Finset.Range

namespace VelaWasm.Lwac

open VelaWasm.Run

/-! ## The property -/

/-- A run that has returned has released what it acquired, each as often as it was acquired, and has taken back
its references; the reference count is made up of what the runs have changed it by; and every run with an entry
still has it. -/
structure Released (s : MainState) : Prop where
  ledger : ∀ p ∈ s.processes, ∀ ret, p.pc = .returned ret → p.ledger.released.Perm p.ledger.acquired
  refs : ∀ p ∈ s.processes, ∀ ret, p.pc = .returned ret → p.refs = 0
  refCount : s.runtime.refCount = (s.processes.map Process.refs).sum
  entries : ∀ m, Owned Execution.moduleInfo? s.lwac.executions m → m ∈ s.lwac.registry.moduleListHead

/-! ## What a run holds -/

/-- What a run of `main` holds: what its `execute_wasm_module` holds, and the file content. -/
def MainState.held (s : MainState) (p : Process) : List Resource :=
  (p.execution?.bind (s.lwac.executions[·]?)).elim [] Execution.held ++ p.file?.elim [] Lwac.freeFileContent

/-- The references that a run of `main` holds. -/
def MainState.refs (s : MainState) (p : Process) : ℤ :=
  (p.instance?.bind (s.runtime.instances[·]?)).elim 0 InstancePc.refs

/-- Each run has its own place in the runtime and among the executions, holds what its ledger says, and has
changed the reference count by the references it holds. -/
structure ReleaseInv (s : MainState) : Prop where
  entries : EntriesInv s.lwac
  instances : Held Process.instance? s.processes (Finset.range s.runtime.instances.length)
  executions : Held Process.execution? s.processes (Finset.range s.lwac.executions.length)
  ledger : ∀ (i : ℕ) (p : Process), s.processes[i]? = some p → p.ledger.Holds (s.held p)
  refs : ∀ (i : ℕ) (p : Process), s.processes[i]? = some p → p.refs = s.refs p
  refCount : s.runtime.refCount = (s.processes.map Process.refs).sum

theorem releaseInv_start : ReleaseInv .start :=
  ⟨entriesInv_start, .nil, .nil, fun _ _ h => (by cases h), fun _ _ h => (by cases h), rfl⟩

theorem released_of_inv {s : MainState} (hi : ReleaseInv s) : Released s := by
  refine ⟨fun p hp ret hret => ?_, fun p hp ret hret => ?_, hi.refCount, fun m hm => (hi.entries.listed m).2 hm⟩
  · obtain ⟨i, hp⟩ := List.mem_iff_getElem?.1 hp
    have hheld : s.held p = [] := by simp [MainState.held, Process.execution?, Process.file?, hret]
    have := hi.ledger i p hp
    rw [hheld] at this
    exact this.all_released
  · obtain ⟨i, hp⟩ := List.mem_iff_getElem?.1 hp
    rw [hi.refs i p hp]
    simp [MainState.refs, Process.instance?, hret]

variable {s t : MainState} {i : ℕ} {p p' : Process}

/-! ## Steps -/

/-- The other runs hold what they held, as long as their places are left alone. -/
theorem held_congr (h : ∀ j, p.execution? = some j → t.lwac.executions[j]? = s.lwac.executions[j]?) :
    t.held p = s.held p := by
  unfold MainState.held
  cases hj : p.execution? with
  | none => rfl
  | some j => simp only [Option.bind_some, h j hj]

theorem refs_congr (h : ∀ j, p.instance? = some j → t.runtime.instances[j]? = s.runtime.instances[j]?) :
    t.refs p = s.refs p := by
  unfold MainState.refs
  cases hj : p.instance? with
  | none => rfl
  | some j => simp only [Option.bind_some, h j hj]

/-- A step of run `i`, which leaves the places of the others alone. -/
theorem ReleaseInv.enter (hi : ReleaseInv s) (hp : s.processes[i]? = some p)
    (ht : t.processes = s.processes.set i p') (hentries : EntriesInv t.lwac)
    (hinst : Held Process.instance? t.processes (Finset.range t.runtime.instances.length))
    (hexec : Held Process.execution? t.processes (Finset.range t.lwac.executions.length))
    (hledger : p'.ledger.Holds (t.held p')) (hrefs : p'.refs = t.refs p')
    (hcount : t.runtime.refCount = s.runtime.refCount - p.refs + p'.refs)
    (hother : ∀ (j : ℕ) (q : Process), j ≠ i → s.processes[j]? = some q →
      (∀ k, q.execution? = some k → t.lwac.executions[k]? = s.lwac.executions[k]?) ∧
      ∀ k, q.instance? = some k → t.runtime.instances[k]? = s.runtime.instances[k]?) : ReleaseInv t where
  entries := hentries
  instances := hinst
  executions := hexec
  ledger j q hj := by
    rw [ht] at hj
    rcases getElem?_set_some hj with ⟨-, rfl⟩ | ⟨hji, hj⟩
    · exact hledger
    · rw [held_congr (hother j q hji hj).1]
      exact hi.ledger j q hj
  refs j q hj := by
    rw [ht] at hj
    rcases getElem?_set_some hj with ⟨-, rfl⟩ | ⟨hji, hj⟩
    · exact hrefs
    · rw [refs_congr (hother j q hji hj).2]
      exact hi.refs j q hj
  refCount := by
    rw [hcount, ht, sum_map_set hp, hi.refCount]

/-- A step of run `i` by which nothing but its own place in `main` changes. -/
theorem ReleaseInv.goto (hi : ReleaseInv s) (hp : s.processes[i]? = some p)
    (hinst : p'.instance? = none ∨ p'.instance? = p.instance?)
    (hexec : p'.execution? = none ∨ p'.execution? = p.execution?) (hledger : p'.ledger.Holds (s.held p'))
    (hrefs : p'.refs = s.refs p') (hsame : p'.refs = p.refs) : ReleaseInv (s.enter i p') := by
  refine hi.enter hp rfl hi.entries ?_ ?_ hledger hrefs ?_ fun _ _ _ _ => ⟨fun _ _ => rfl, fun _ _ => rfl⟩
  · rcases hinst with h | h
    · exact hi.instances.drop hp h
    · exact hi.instances.set hp h
  · rcases hexec with h | h
    · exact hi.executions.drop hp h
    · exact hi.executions.set hp h
  · show s.runtime.refCount = _
    omega

/-! ### The file -/

/-- `munmap` is given the length that was mapped: both are the size modulo 2^32. -/
theorem toUInt32_toInt32 (n : Int64) : n.toInt32.toUInt32 = n.toUInt64.toUInt32 := by
  apply UInt32.toBitVec_inj.1
  show n.toBitVec.signExtend 32 = n.toBitVec.setWidth 32
  exact BitVec.signExtend_eq_setWidth_of_le _ (by decide)

theorem freeFileContent_null {file : FileContent} (h : file.content = null) : freeFileContent file = [] :=
  if_neg (not_not_intro h)

/-- What `load_file` has acquired and not released is the content it returns. -/
theorem loadFile_effects {a : FileAnswers} (useMalloc : Bool) (hm : a.mmap ≠ some null) :
    (fileAcquires a useMalloc).Perm (fileReleases a useMalloc ++
      freeFileContent ⟨(loadFile a useMalloc).1, (loadFile a useMalloc).2, useMalloc⟩) := by
  unfold fileAcquires fileReleases loadFile
  by_cases hfd : a.fd < 0
  · simp only [if_pos hfd]
    rw [freeFileContent_null rfl]
    exact .nil
  by_cases hstat : a.fstat ≠ 0
  · simp only [if_neg hfd, if_pos hstat]
    rw [freeFileContent_null rfl]
    exact .refl _
  simp only [if_neg hfd, if_neg hstat]
  cases useMalloc with
  | true =>
    by_cases hmalloc : a.malloc = null
    · simp only [if_true, if_pos hmalloc]
      rw [freeFileContent_null rfl]
      exact .refl _
    by_cases hread : a.bytesRead ≠ a.stSize
    · simp only [if_true, if_neg hmalloc, if_pos hread]
      rw [freeFileContent_null rfl]
      exact .swap _ _ _
    · simp only [if_true, if_neg hmalloc, if_neg hread, freeFileContent, if_pos hmalloc]
      exact .swap _ _ _
  | false =>
    cases hmap : a.mmap with
    | none =>
      rw [freeFileContent_null rfl]
      exact .refl _
    | some content =>
      have hc : content ≠ null := fun h => hm (hmap.trans (congrArg some h))
      simp only [Bool.false_eq_true, if_false, freeFileContent, if_pos hc, toUInt32_toInt32]
      exact .swap _ _ _

/-- `load_file`: on success the run enters the runtime with the content. -/
theorem inv_loadFile {modules : ℕ} {a : FileAnswers} (hi : ReleaseInv s) (h : s.loadFile i modules a = some t) :
    ReleaseInv t := by
  unfold MainState.loadFile at h
  split at h
  · next args ledger refs hp =>
    by_cases hm : a.mmap = some null
    · rw [if_pos hm] at h
      cases h
    simp only [if_neg hm] at h
    have hempty : ledger.Holds [] := hi.ledger i _ hp
    have hzero : refs = 0 := hi.refs i _ hp
    have hledger : (ledger.record (fileAcquires a args.noMmap) (fileReleases a args.noMmap)).Holds
        (freeFileContent ⟨(loadFile a args.noMmap).1, (loadFile a args.noMmap).2, args.noMmap⟩) := by
      refine hempty.record ?_
      rw [List.append_nil]
      exact loadFile_effects args.noMmap hm
    by_cases hnull : (loadFile a args.noMmap).1 = null
    · rw [if_pos hnull] at h
      cases h
      exact hi.goto hp (.inl rfl) (.inl rfl) hledger hzero rfl
    · rw [if_neg hnull] at h
      simp only [runtimeStep, Option.map_some, Option.some.injEq] at h
      subst h
      have hnew : s.runtime.instances.length ∉ Finset.range s.runtime.instances.length := Finset.notMem_range_self
      refine hi.enter hp rfl hi.entries ?_ (hi.executions.set hp rfl) hledger ?_ ?_ fun j q hji hj =>
        ⟨fun _ _ => rfl, fun k hk => ?_⟩
      · simp only [List.length_append, List.length_singleton, Finset.range_add_one]
        exact hi.instances.acquire hp rfl rfl hnew
      · simp [MainState.refs, Process.instance?, InstancePc.refs, hzero]
      · show s.runtime.refCount = s.runtime.refCount - refs + refs
        omega
      · have hlt := Finset.mem_range.1 (hi.instances.live k ⟨j, q, hj, hk⟩)
        exact List.getElem?_append_left hlt
  · cases h

/-! ### The runtime -/

/-- A step in the runtime changes the reference count by the references of the instance that takes it. -/
theorem runtimeNext_refs {modules k : ℕ} {answer : Bool} {u v : RuntimeState}
    (h : runtimeStep modules u (.next k answer) = some v) : ∃ pc pc', u.instances[k]? = some pc ∧
      v.instances = u.instances.set k pc' ∧ v.refCount = u.refCount - pc.refs + pc'.refs := by
  obtain ⟨pc, hpc, h⟩ := Option.bind_eq_some_iff.1 h
  cases pc with
  | lockInit =>
    simp only [RuntimeState.next] at h
    split_ifs at h
    cases h
    exact ⟨_, _, hpc, rfl, by simp [RuntimeState.goto, InstancePc.refs]⟩
  | testRefCount =>
    cases h
    refine ⟨_, _, hpc, rfl, ?_⟩
    split_ifs <;> simp [RuntimeState.goto, InstancePc.refs]
  | runtimeInit =>
    simp only [RuntimeState.next] at h
    split_ifs at h <;> cases h <;> exact ⟨_, _, hpc, rfl, by simp [RuntimeState.goto, InstancePc.refs]⟩
  | registerModule j =>
    simp only [RuntimeState.next] at h
    split_ifs at h <;> cases h <;> exact ⟨_, _, hpc, rfl, by simp [RuntimeState.goto, InstancePc.refs]⟩
  | increment =>
    simp only [RuntimeState.next] at h
    split_ifs at h
    cases h
    exact ⟨_, _, hpc, rfl, by simp [InstancePc.refs]⟩
  | unlockInit ret =>
    cases h
    refine ⟨_, _, hpc, rfl, ?_⟩
    by_cases hret : ret = 0 <;> simp [RuntimeState.goto, InstancePc.refs, hret]
  | lockDestroy =>
    simp only [RuntimeState.next] at h
    split_ifs at h
    cases h
    exact ⟨_, _, hpc, rfl, by simp [RuntimeState.goto, InstancePc.refs]⟩
  | decrement =>
    cases h
    exact ⟨_, _, hpc, rfl, by simp [InstancePc.refs]⟩
  | testLast =>
    cases h
    refine ⟨_, _, hpc, rfl, ?_⟩
    split_ifs <;> simp [RuntimeState.goto, InstancePc.refs]
  | runtimeDestroy =>
    cases h
    exact ⟨_, _, hpc, rfl, by simp [RuntimeState.goto, InstancePc.refs]⟩
  | unlockDestroy =>
    cases h
    exact ⟨_, _, hpc, rfl, by simp [RuntimeState.goto, InstancePc.refs]⟩
  | ended => cases h

/-- A run in the runtime goes on at `pc`, at its instance or, if that holds no reference, without it. -/
theorem ReleaseInv.nextRuntime {args : LwacArgs} {file : FileContent} {inst : ℕ} {ret : Int32}
    {ledger : Ledger Resource} {refs : ℤ} {u : RuntimeState} {instancePc instancePc' : InstancePc} (hi : ReleaseInv s)
    (hp : s.processes[i]? = some ⟨.runtime args file inst ret, ledger, refs⟩)
    (hpc : s.runtime.instances[inst]? = some instancePc)
    (hset : u.instances = s.runtime.instances.set inst instancePc')
    (hcount : u.refCount = s.runtime.refCount - instancePc.refs + instancePc'.refs) (pc : MainPc)
    (hexec : ∀ l r, Process.execution? ⟨pc, l, r⟩ = none) (hfile : ∀ l r, Process.file? ⟨pc, l, r⟩ = some file)
    (hinst : (∀ l r, Process.instance? ⟨pc, l, r⟩ = some inst) ∨
      (∀ l r, Process.instance? ⟨pc, l, r⟩ = none) ∧ instancePc'.refs = 0) :
    ReleaseInv { s.enter i ⟨pc, ledger, refs + (u.refCount - s.runtime.refCount)⟩ with runtime := u } := by
  have hnew : u.instances[inst]? = some instancePc' := by
    rw [hset]
    exact getElem?_set_of_some hpc
  have hrefs : refs = instancePc.refs := (hi.refs i _ hp).trans (by simp [MainState.refs, Process.instance?, hpc])
  have hledger : ledger.Holds (freeFileContent file) := hi.ledger i _ hp
  refine hi.enter hp rfl hi.entries ?_ (hi.executions.drop hp (hexec _ _)) ?_ ?_ ?_ fun j q hji hj =>
    ⟨fun _ _ => rfl, fun k hk => ?_⟩
  · have hlength : u.instances.length = s.runtime.instances.length := by
      rw [hset, List.length_set]
    rw [hlength]
    rcases hinst with hinst | ⟨hinst, -⟩
    · exact hi.instances.set hp (hinst _ _)
    · exact hi.instances.drop hp (hinst _ _)
  · simpa [MainState.held, hexec, hfile] using hledger
  · show refs + (u.refCount - s.runtime.refCount) = _
    rcases hinst with hinst | ⟨hinst, hzero⟩
    · simp only [MainState.refs, hinst, Option.bind_some, hnew, Option.elim_some]
      omega
    · simp only [MainState.refs, hinst, Option.bind_none, Option.elim_none]
      omega
  · show u.refCount = s.runtime.refCount - refs + (refs + (u.refCount - s.runtime.refCount))
    omega
  -- no other run has the same place
  · have hk' : k ≠ inst := by
      rintro rfl
      exact hji (hi.instances.unique j i q _ k hj hp hk rfl)
    show u.instances[k]? = _
    rw [hset, List.getElem?_set_ne hk'.symm]

/-- A run in the runtime goes on in it, or leaves it for `wasm_runtime_is_xip_file` or, without a reference, for
`out:`. -/
theorem inv_runtimeNext {modules : ℕ} {answer : Bool} (hi : ReleaseInv s)
    (h : s.runtimeNext i modules answer = some t) : ReleaseInv t := by
  unfold MainState.runtimeNext at h
  split at h
  · next args file inst ret ledger refs hp =>
    obtain ⟨u, hu, rfl⟩ := Option.map_eq_some_iff.1 h
    obtain ⟨pc, pc', hpc, hset, hcount⟩ := runtimeNext_refs hu
    have hnew : u.instances[inst]? = some pc' := by
      rw [hset]
      exact getElem?_set_of_some hpc
    have hnext := hi.nextRuntime hp hpc hset hcount
    simp only [hnew]
    cases pc' with
    | lockDestroy => exact hnext _ (fun _ _ => rfl) (fun _ _ => rfl) (.inl fun _ _ => rfl)
    | ended => exact hnext _ (fun _ _ => rfl) (fun _ _ => rfl) (.inr ⟨fun _ _ => rfl, rfl⟩)
    | _ => exact hnext _ (fun _ _ => rfl) (fun _ _ => rfl) (.inl fun _ _ => rfl)
  · cases h

theorem inv_isXipFile {profiling answer : Bool} (hi : ReleaseInv s)
    (h : s.isXipFile i profiling answer = some t) : ReleaseInv t := by
  unfold MainState.isXipFile at h
  split at h
  · next args file inst ledger refs hp =>
    have hledger : ledger.Holds (freeFileContent file) := hi.ledger i _ hp
    have hrefs := hi.refs i _ hp
    split_ifs at h
    · cases h
      exact hi.goto hp (.inr rfl) (.inl rfl) hledger hrefs rfl
    · simp only [lwacStep, Option.map_some, Option.some.injEq] at h
      subst h
      have hnew : s.lwac.executions.length ∉ Finset.range s.lwac.executions.length := Finset.notMem_range_self
      refine hi.enter hp rfl hi.entries.execute (hi.instances.set hp rfl) ?_ ?_ hrefs ?_ fun j q hji hj =>
        ⟨fun k hk => ?_, fun _ _ => rfl⟩
      · simp only [List.length_append, List.length_singleton, Finset.range_add_one]
        exact hi.executions.acquire hp rfl rfl hnew
      · simpa [MainState.held, Process.execution?, Process.file?, Execution.held, Execution.moduleInfo?,
          Execution.execEnv?, Execution.moduleInst?, Execution.wasmModule?] using hledger
      · show s.runtime.refCount = s.runtime.refCount - refs + refs
        omega
      · have hlt := Finset.mem_range.1 (hi.executions.live k ⟨j, q, hj, hk⟩)
        exact List.getElem?_append_left hlt
  · cases h

/-! ### The module -/

/-- A run in `execute_wasm_module` goes on at `pc`, at its execution or, if that holds nothing, without it. -/
theorem ReleaseInv.nextExecute {args : LwacArgs} {file : FileContent} {inst execution : ℕ} {ledger : Ledger Resource}
    {refs : ℤ} {u : LwacState} {acquired released : List Resource} {e e' : Execution} (hi : ReleaseInv s)
    (hp : s.processes[i]? = some ⟨.execute args file inst execution, ledger, refs⟩) (hentries : EntriesInv u)
    (he : s.lwac.executions[execution]? = some e) (hset : u.executions = s.lwac.executions.set execution e')
    (hperm : (acquired ++ e.held).Perm (released ++ e'.held)) (pc : MainPc)
    (hinst : ∀ l r, Process.instance? ⟨pc, l, r⟩ = some inst) (hfile : ∀ l r, Process.file? ⟨pc, l, r⟩ = some file)
    (hexec : (∀ l r, Process.execution? ⟨pc, l, r⟩ = some execution) ∨
      (∀ l r, Process.execution? ⟨pc, l, r⟩ = none) ∧ e'.held = []) :
    ReleaseInv { s.enter i ⟨pc, ledger.record acquired released, refs⟩ with lwac := u } := by
  have hnew : u.executions[execution]? = some e' := by
    rw [hset]
    exact getElem?_set_of_some he
  have hrefs := hi.refs i _ hp
  have hold : ledger.Holds (e.held ++ freeFileContent file) := by
    simpa [MainState.held, Process.execution?, Process.file?, he] using hi.ledger i _ hp
  have hledger : (ledger.record acquired released).Holds (e'.held ++ freeFileContent file) := by
    refine hold.record ?_
    rw [← List.append_assoc, ← List.append_assoc]
    exact hperm.append_right _
  refine hi.enter hp rfl hentries (hi.instances.set hp (hinst _ _)) ?_ ?_ ?_ ?_ fun j q hji hj =>
    ⟨fun k hk => ?_, fun _ _ => rfl⟩
  · have hlength : u.executions.length = s.lwac.executions.length := by
      rw [hset, List.length_set]
    rw [hlength]
    rcases hexec with hexec | ⟨hexec, -⟩
    · exact hi.executions.set hp (hexec _ _)
    · exact hi.executions.drop hp (hexec _ _)
  · rcases hexec with hexec | ⟨hexec, hnone⟩
    · simpa [MainState.held, hexec, hfile, hnew] using hledger
    · rw [hnone] at hledger
      simpa [MainState.held, hexec, hfile] using hledger
  · refine hrefs.trans ?_
    simp only [MainState.refs, hinst]
    rfl
  · show s.runtime.refCount = s.runtime.refCount - refs + refs
    omega
  · have hk' : k ≠ execution := by
      rintro rfl
      exact hji (hi.executions.unique j i q _ k hj hp hk rfl)
    show u.executions[k]? = _
    rw [hset, List.getElem?_set_ne hk'.symm]

/-- A call of `execute_wasm_module`; after the last one the run holds only the file content. -/
theorem inv_executeCall {profiling : Bool} {call : LwacAction} (hi : ReleaseInv s)
    (h : s.execute i profiling call = some t) : ReleaseInv t := by
  unfold MainState.execute at h
  split at h
  · next args file inst execution ledger refs hp =>
    split_ifs at h with hcaller
    obtain ⟨u, hu, rfl⟩ := Option.map_eq_some_iff.1 h
    have hcalls := lwacStep_calls hcaller hu
    obtain ⟨e, e', he, hset, hperm⟩ := held_calls hi.entries hcalls
    have hnew : u.executions[execution]? = some e' := by
      rw [hset]
      exact getElem?_set_of_some he
    have hnext := hi.nextExecute hp (hi.entries.calls hcalls) he hset hperm
    simp only [hnew]
    obtain ⟨params, stage⟩ := e'
    cases stage with
    | returned ret => exact hnext _ (fun _ _ => rfl) (fun _ _ => rfl) (.inr ⟨fun _ _ => rfl, rfl⟩)
    | _ => exact hnext _ (fun _ _ => rfl) (fun _ _ => rfl) (.inl fun _ _ => rfl)
  · cases h

/-! ### The rest of `main` -/

theorem inv_main {L : Libc} {argv : List CString} (hi : ReleaseInv s) :
    ReleaseInv { s with processes := s.processes ++ [⟨mainPc L argv, .empty, 0⟩] } := by
  have hpc : (∃ ret, mainPc L argv = outEmpty ret) ∨ mainPc L argv = .printRunningModules ∨
      ∃ args, mainPc L argv = .loadFile args := by
    unfold mainPc
    split
    · exact .inl ⟨_, rfl⟩
    · split_ifs
      · exact .inr (.inl rfl)
      · exact .inr (.inr ⟨_, rfl⟩)
  generalize mainPc L argv = pc at hpc
  have hnone : Process.instance? ⟨pc, .empty, 0⟩ = none ∧ Process.execution? ⟨pc, .empty, 0⟩ = none ∧
      s.held ⟨pc, .empty, 0⟩ = [] := by
    rcases hpc with ⟨ret, rfl⟩ | rfl | ⟨args, rfl⟩ <;> exact ⟨rfl, rfl, rfl⟩
  refine ⟨hi.entries, hi.instances.append hnone.1, hi.executions.append hnone.2.1, fun j q hj => ?_, fun j q hj => ?_,
    ?_⟩
  · rcases getElem?_concat_some hj with hj | ⟨-, rfl⟩
    · exact hi.ledger j q hj
    · have hempty : Ledger.empty.Holds (s.held ⟨pc, .empty, 0⟩) := by
        rw [hnone.2.2]
        exact Ledger.holds_empty
      exact hempty
  · rcases getElem?_concat_some hj with hj | ⟨-, rfl⟩
    · exact hi.refs j q hj
    · simp [MainState.refs, hnone.1]
  · simp [hi.refCount]

theorem inv_freeFileContent (hi : ReleaseInv s) (h : s.freeFileContent i = some t) : ReleaseInv t := by
  unfold MainState.freeFileContent at h
  split at h
  · next file ret ledger refs hp =>
    cases h
    have hledger : ledger.Holds (freeFileContent file) := hi.ledger i _ hp
    have hrefs := hi.refs i _ hp
    refine hi.goto hp (.inl rfl) (.inl rfl) (hledger.record ?_) hrefs rfl
    rw [List.nil_append]
    exact (List.append_nil _).symm ▸ .refl _
  · cases h

/-- A step of `lwac --ps`. -/
theorem ReleaseInv.printer {profiling : Bool} {a : LwacAction} {u : LwacState} (hi : ReleaseInv s)
    (ha : a.caller = none) (hne : ∀ params, a ≠ .execute params) (h : lwacStep profiling s.lwac a = some u) :
    ReleaseInv { s with lwac := u } := by
  obtain ⟨he, hn, hr⟩ := printers_frame ha hne h
  refine ⟨hi.entries.congr he hn hr, hi.instances, ?_, fun j q hj => ?_, hi.refs, hi.refCount⟩
  · rw [he]
    exact hi.executions
  · have hheld : MainState.held { s with lwac := u } q = s.held q := held_congr fun k _ => congrArg (·[k]?) he
    rw [hheld]
    exact hi.ledger j q hj

theorem inv_printStart {profiling : Bool} {now : Int64} (hi : ReleaseInv s)
    (h : s.printStart i profiling now = some t) : ReleaseInv t := by
  unfold MainState.printStart at h
  split at h
  · next ledger refs hp =>
    obtain ⟨u, hu, rfl⟩ := Option.map_eq_some_iff.1 h
    have hledger := hi.ledger i _ hp
    have hrefs := hi.refs i _ hp
    have hgoto : ReleaseInv (s.enter i ⟨.printing, ledger, refs⟩) :=
      hi.goto hp (.inl rfl) (.inl rfl) hledger hrefs rfl
    exact hgoto.printer rfl (by simp) hu
  · cases h

theorem inv_printed {profiling : Bool} {j : ℕ} (hi : ReleaseInv s) (h : s.printEnd i profiling j = some t) :
    ReleaseInv t := by
  unfold MainState.printEnd at h
  split at h
  · next ledger refs hp =>
    obtain ⟨u, hu, rfl⟩ := Option.map_eq_some_iff.1 h
    have hledger := hi.ledger i _ hp
    have hrefs := hi.refs i _ hp
    have hgoto : ReleaseInv (s.enter i ⟨outEmpty .success, ledger, refs⟩) :=
      hi.goto hp (.inl rfl) (.inl rfl) hledger hrefs rfl
    exact hgoto.printer rfl (by simp) hu
  · cases h

/-! ## Runs -/

theorem releaseInv_step {L : Libc} {modules : ℕ} {profiling : Bool} {a : MainAction} (hi : ReleaseInv s)
    (h : mainStep L modules profiling s a = some t) : ReleaseInv t := by
  cases a with
  | main argv => cases h; exact inv_main hi
  | loadFile j answers => exact inv_loadFile hi h
  | runtime j answer => exact inv_runtimeNext hi h
  | isXipFile j answer => exact inv_isXipFile hi h
  | execute j call => exact inv_executeCall hi h
  | freeFileContent j => exact inv_freeFileContent hi h
  | printStart j now => exact inv_printStart hi h
  | printRow j heapInfo aux =>
    obtain ⟨u, hu, rfl⟩ := Option.map_eq_some_iff.1 h
    exact hi.printer rfl (by simp) hu
  | printEnd j k => exact inv_printed hi h

/-- In every state of every run of the system, a `main` that has returned has released what it acquired, and no
entry of another has been removed. -/
theorem released_of_run {L : Libc} {modules : ℕ} {profiling : Bool} {as : List MainAction} {s : MainState}
    (h : exec (mainStep L modules profiling) .start as = some s) : Released s :=
  released_of_inv (exec_preserves (fun _ _ _ hi ht => releaseInv_step hi ht) releaseInv_start h)

/-- The next statements of run `i` in the runtime, all of whose calls succeed. -/
def inRuntime (i statements : ℕ) : List MainAction := List.replicate statements (.runtime i true)

/-- The calls of run `i` in `execute_wasm_module`. -/
def inExecute (i : ℕ) (calls : List LwacAction) : List MainAction := calls.map (.execute i)

/-- A module runs to its end while another, which has no entry function, is cleaned up, and a third is not there. -/
def threeRuns : List MainAction :=
  let argv : List CString := ["lwac".toList, "inc_demo.aot".toList]
  List.flatten [
    [.main argv, .loadFile 0 ⟨3, 0, 100, null, 0, some 0x1000⟩], inRuntime 0 7, [.isXipFile 0 true],
    inExecute 0 [.load 0 (some 0x100), .instantiate 0 (some 0x200), .createExecEnv 0 (some 0x300),
      .lookupFunction 0 ["main".toList], .register 0 true 10],
    [.main argv, .loadFile 1 ⟨4, 0, 100, null, 0, some 0x2000⟩], inRuntime 1 4, [.isXipFile 1 true],
    [.main argv, .loadFile 2 ⟨-1, 0, 0, null, 0, none⟩, .freeFileContent 2],
    inExecute 1 [.load 1 (some 0x110), .instantiate 1 (some 0x210), .createExecEnv 1 (some 0x310),
      .lookupFunction 1 [], .destroyExecEnv 1, .unregister 1, .deinstantiate 1, .unload 1],
    inRuntime 1 4, [.freeFileContent 1],
    inExecute 0 [.callWasm 0 true, .destroyExecEnv 0, .unregister 0, .deinstantiate 0, .unload 0],
    inRuntime 0 5, [.freeFileContent 0]]

theorem released_threeRuns :
    ∃ s, exec (mainStep operandsOnly 1 true) .start threeRuns = some s ∧
      s.processes.map Process.pc = [.returned 0, .returned 1, .returned 0] ∧ Released s := by
  have hrun : (exec (mainStep operandsOnly 1 true) .start threeRuns).map (fun s => s.processes.map Process.pc) =
      some [.returned 0, .returned 1, .returned 0] := by decide
  obtain ⟨s, hs, hpcs⟩ := Option.map_eq_some_iff.1 hrun
  exact ⟨s, hs, hpcs, released_of_run hs⟩

end VelaWasm.Lwac
