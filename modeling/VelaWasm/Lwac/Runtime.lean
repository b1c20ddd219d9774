/-
The shared runtime and its reference count. Any number of instances go through `lwac_runtime_init` and
`lwac_runtime_destroy`, one step per statement, under `g_wasm_runtime_mutex`. An init that brings the
runtime up and then fails to register an external module unlocks without `wasm_runtime_destroy` and
without a reference; otherwise the runtime is up, whenever the mutex is free, exactly while it is
referenced.
-/
import VelaWasm.Lib.Ownership
import VelaWasm.Lib.Run
import Mathlib.Algebra.Order.BigOperators.Group.List
import Mathlib.Algebra.Order.Group.Int
import Mathlib.Algebra.Ring.Int.Defs

namespace VelaWasm.Lwac

open VelaWasm.Run

/-! ## Steps -/

/-- The next statement of an instance. -/
inductive InstancePc where
  /-- at `pthread_mutex_lock` of `lwac_runtime_init` -/
  | lockInit
  | testRefCount
  /-- at `wasm_runtime_init()` -/
  | runtimeInit
  /-- at `g_wamr_modules[i]()` -/
  | registerModule (i : ℕ)
  | increment
  /-- at `unlock:` of `lwac_runtime_init` -/
  | unlockInit (ret : Int32)
  /-- the init has succeeded; at `pthread_mutex_lock` of `lwac_runtime_destroy` -/
  | lockDestroy
  | decrement
  | testLast
  /-- at `wasm_runtime_destroy()` -/
  | runtimeDestroy
  | unlockDestroy
  | ended
  deriving DecidableEq, Repr

/-- `g_wasm_runtime_ref_count`, the holder of `g_wasm_runtime_mutex`, the instances, and the counts of
successful `wasm_runtime_init` and of `wasm_runtime_destroy` calls. -/
structure RuntimeState where
  refCount : ℤ
  mutex : Option ℕ
  inits : ℕ
  destroys : ℕ
  instances : List InstancePc
  deriving DecidableEq, Repr

def RuntimeState.start : RuntimeState := ⟨0, none, 0, 0, []⟩

inductive RuntimeAction where
  /-- another instance calls `lwac_runtime_init` -/
  | enter
  /-- instance `i` takes its next step; `answer` is what the external call returns, if it is one -/
  | next (i : ℕ) (answer : Bool)
  deriving DecidableEq, Repr

/-- Instance `i` goes on at `pc`. -/
def RuntimeState.goto (s : RuntimeState) (i : ℕ) (pc : InstancePc) : RuntimeState :=
  { s with instances := s.instances.set i pc }

/-- The next step of instance `i`, at `pc`; `modules` is the length of `g_wamr_modules`. `none` while the
mutex is held by another instance. -/
def RuntimeState.next (modules : ℕ) (s : RuntimeState) (i : ℕ) (answer : Bool) : InstancePc → Option RuntimeState
  | .lockInit => if s.mutex = none then some { s.goto i .testRefCount with mutex := some i } else none
  | .testRefCount => some (s.goto i (if s.refCount = 0 then .runtimeInit else .increment))
  | .runtimeInit =>
    if answer then some { s.goto i (.registerModule 0) with inits := s.inits + 1 }
    else some (s.goto i (.unlockInit (-1)))
  | .registerModule j =>
    if j < modules then some (s.goto i (if answer then .registerModule (j + 1) else .unlockInit (-1)))
    else some (s.goto i .increment)
  | .increment =>
    -- `++` of an `int` at `INT_MAX` is undefined
    if s.refCount = 2147483647 then none
    else some { s.goto i (.unlockInit 0) with refCount := s.refCount + 1 }
  | .unlockInit ret => some { s.goto i (if ret = 0 then .lockDestroy else .ended) with mutex := none }
  | .lockDestroy => if s.mutex = none then some { s.goto i .decrement with mutex := some i } else none
  | .decrement => some { s.goto i .testLast with refCount := s.refCount - 1 }
  | .testLast => some (s.goto i (if s.refCount = 0 then .runtimeDestroy else .unlockDestroy))
  | .runtimeDestroy => some { s.goto i .unlockDestroy with destroys := s.destroys + 1 }
  | .unlockDestroy => some { s.goto i .ended with mutex := none }
  | .ended => none

def runtimeStep (modules : ℕ) (s : RuntimeState) : RuntimeAction → Option RuntimeState
  | .enter => some { s with instances := s.instances ++ [.lockInit] }
  | .next i answer => s.instances[i]?.bind fun pc => s.next modules i answer pc

/-! ## The property -/

/-- Whenever the mutex is free, the runtime is up while it is referenced and only then. -/
def UpWhileReferenced (s : RuntimeState) : Prop :=
  s.mutex = none →
    (0 < s.refCount → (s.inits : ℤ) - s.destroys = 1) ∧ (s.refCount = 0 → (s.inits : ℤ) - s.destroys = 0)

/-- No registration of an external module fails. -/
def Registers (modules : ℕ) (s : RuntimeState) : RuntimeAction → Prop
  | .next i answer => ∀ j < modules, s.instances[i]? = some (.registerModule j) → answer = true
  | .enter => True

instance (modules : ℕ) (s : RuntimeState) : DecidablePred (Registers modules s)
  | .next _ _ => inferInstanceAs (Decidable (∀ j < modules, _ → _))
  | .enter => isTrue trivial

/-! ## The invariant -/

/-- The places inside the critical sections. -/
def InstancePc.locked : InstancePc → Bool
  | .lockInit | .lockDestroy | .ended => false
  | _ => true

/-- The references an instance holds at `pc`. -/
def InstancePc.refs : InstancePc → ℤ
  | .lockDestroy | .decrement => 1
  | .unlockInit ret => if ret = 0 then 1 else 0
  | _ => 0

/-- The reference count and the times the runtime is up, when the instance in the critical section is at
`pc`; outside the critical sections they agree. -/
def Balanced (refCount up : ℤ) : InstancePc → Prop
  | .runtimeInit => refCount = 0 ∧ up = 0
  | .registerModule _ => refCount = 0 ∧ up = 1
  | .increment | .testLast => up = 1
  | .runtimeDestroy => refCount = 0 ∧ up = 1
  | _ => up = if refCount = 0 then 0 else 1

structure RuntimeInv (s : RuntimeState) : Prop where
  refs : s.refCount = (s.instances.map InstancePc.refs).sum
  holder : ∀ i, s.mutex = some i → ∃ pc, s.instances[i]? = some pc
  locked : ∀ (i : ℕ) (pc : InstancePc), s.instances[i]? = some pc → (pc.locked = true ↔ s.mutex = some i)
  balanced : ∀ (i : ℕ) (pc : InstancePc), s.instances[i]? = some pc → s.mutex = some i →
    Balanced s.refCount (s.inits - s.destroys) pc
  free : s.mutex = none → (s.inits : ℤ) - s.destroys = if s.refCount = 0 then 0 else 1

theorem runtimeInv_start : RuntimeInv .start :=
  ⟨rfl, fun _ h => (by cases h), fun _ _ h => by simp [RuntimeState.start] at h,
    fun _ _ h => by simp [RuntimeState.start] at h, fun _ => rfl⟩

theorem InstancePc.refs_nonneg (pc : InstancePc) : 0 ≤ pc.refs := by
  cases pc <;> simp only [InstancePc.refs] <;> try split_ifs
  all_goals decide

theorem upWhileReferenced_of_inv {s : RuntimeState} (hi : RuntimeInv s) : UpWhileReferenced s := by
  intro hm
  have h := hi.free hm
  refine ⟨fun hpos => ?_, fun hzero => ?_⟩
  · rwa [if_neg (by omega)] at h
  · rwa [if_pos hzero] at h

/-! ## Steps -/

/-- No instance holds more references than are counted. -/
theorem refs_le {s : RuntimeState} (hi : RuntimeInv s) {i : ℕ} {pc : InstancePc} (hpc : s.instances[i]? = some pc) :
    pc.refs ≤ s.refCount := by
  rw [hi.refs]
  refine List.single_le_sum (fun x hx => ?_) _ (List.mem_map_of_mem (List.mem_of_getElem? hpc))
  obtain ⟨pc, -, rfl⟩ := List.mem_map.1 hx
  exact pc.refs_nonneg

/-- A step of the instance `i`, which has the mutex or finds it free, that ends balanced. -/
theorem RuntimeInv.goto {s : RuntimeState} {i inits destroys : ℕ} {pc pc' : InstancePc} {refCount : ℤ}
    {mutex : Option ℕ} (hi : RuntimeInv s) (hpc : s.instances[i]? = some pc)
    (hm : s.mutex = none ∨ s.mutex = some i) (hm' : mutex = if pc'.locked then some i else none)
    (hrefs : refCount = s.refCount - pc.refs + pc'.refs)
    (hbal : if pc'.locked then Balanced refCount (inits - destroys) pc'
      else (inits : ℤ) - destroys = if refCount = 0 then 0 else 1) :
    RuntimeInv ⟨refCount, mutex, inits, destroys, s.instances.set i pc'⟩ := by
  -- no other instance is in a critical section
  have hother : ∀ (j : ℕ) (pc : InstancePc), j ≠ i → s.instances[j]? = some pc → pc.locked = false := by
    intro j pc hj hpc
    by_contra hl
    have hmj := (hi.locked j pc hpc).1 (by simpa using hl)
    rcases hm with hm | hm <;> rw [hm] at hmj <;> cases hmj
    exact hj rfl
  refine ⟨?_, fun j hmj => ?_, fun j pc₂ hj => ?_, fun j pc₂ hj hmj => ?_, fun hmn => ?_⟩
  · rw [sum_map_set hpc, hrefs, hi.refs]
  · simp only [hm'] at hmj
    split_ifs at hmj
    cases hmj
    exact ⟨pc', getElem?_set_of_some hpc⟩
  · rcases getElem?_set_some hj with ⟨rfl, rfl⟩ | ⟨hji, hj⟩
    · simp [hm']
    · rw [hother j pc₂ hji hj, hm']
      constructor
      · intro h
        cases h
      · intro h
        split_ifs at h
        cases h
        exact absurd rfl hji
  · simp only [hm'] at hmj
    split_ifs at hmj with hl
    cases hmj
    rw [getElem?_set_of_some hpc] at hj
    cases hj
    rwa [if_pos hl] at hbal
  · simp only [hm'] at hmn
    split_ifs at hmn with hl
    rwa [if_neg hl] at hbal

theorem inv_enter {s : RuntimeState} (hi : RuntimeInv s) :
    RuntimeInv { s with instances := s.instances ++ [.lockInit] } := by
  refine ⟨?_, fun j hmj => ?_, fun j pc hj => ?_, fun j pc hj hmj => ?_, hi.free⟩
  · rw [List.map_append, List.sum_append, ← hi.refs]
    simp [InstancePc.refs]
  · obtain ⟨pc, hpc⟩ := hi.holder j hmj
    exact ⟨pc, getElem?_concat_of_some hpc⟩
  · rcases getElem?_concat_some hj with hj | ⟨hnone, rfl⟩
    · exact hi.locked j pc hj
    · refine ⟨fun h => (by cases h), fun hmj => ?_⟩
      obtain ⟨pc, hpc⟩ := hi.holder j hmj
      rw [hnone] at hpc
      cases hpc
  · rcases getElem?_concat_some hj with hj | ⟨hnone, rfl⟩
    · exact hi.balanced j pc hj hmj
    · obtain ⟨pc, hpc⟩ := hi.holder j hmj
      rw [hnone] at hpc
      cases hpc

theorem inv_next {modules i : ℕ} {s t : RuntimeState} {answer : Bool} {pc : InstancePc} (hi : RuntimeInv s)
    (hpc : s.instances[i]? = some pc) (hok : ∀ j < modules, pc = .registerModule j → answer = true)
    (h : s.next modules i answer pc = some t) : RuntimeInv t := by
  have hnonneg := refs_le hi hpc
  have held : pc.locked = true → s.mutex = some i := (hi.locked i pc hpc).1
  have hbal : s.mutex = some i → Balanced s.refCount (s.inits - s.destroys) pc := hi.balanced i pc hpc
  cases pc with
  | lockInit =>
    simp only [RuntimeState.next] at h
    split_ifs at h with hm
    cases h
    exact hi.goto hpc (.inl hm) rfl (by simp [InstancePc.refs, RuntimeState.goto]) (hi.free hm)
  | testRefCount =>
    cases h
    have hm := held rfl
    have hb := hbal hm
    by_cases hz : s.refCount = 0
    · simp only [Balanced, if_pos hz] at hb ⊢
      exact hi.goto hpc (.inr hm) hm (by simp [InstancePc.refs]) ⟨hz, hb⟩
    · simp only [Balanced, if_neg hz] at hb ⊢
      exact hi.goto hpc (.inr hm) hm (by simp [InstancePc.refs]) hb
  | runtimeInit =>
    have hm := held rfl
    obtain ⟨hz, hup⟩ := hbal hm
    simp only [RuntimeState.next] at h
    split_ifs at h <;> cases h
    · refine hi.goto hpc (.inr hm) hm (by simp [InstancePc.refs, RuntimeState.goto]) ⟨hz, ?_⟩
      simp only [RuntimeState.goto]
      push_cast
      omega
    · refine hi.goto hpc (.inr hm) hm (by simp [InstancePc.refs]) ?_
      simp [InstancePc.locked, Balanced, hz, hup]
  | registerModule j =>
    have hm := held rfl
    obtain ⟨hz, hup⟩ := hbal hm
    simp only [RuntimeState.next] at h
    split_ifs at h with hj ha <;> cases h
    · exact hi.goto hpc (.inr hm) hm (by simp [InstancePc.refs]) ⟨hz, hup⟩
    · exact absurd (hok j hj rfl) ha
    · exact hi.goto hpc (.inr hm) hm (by simp [InstancePc.refs]) hup
  | increment =>
    have hm := held rfl
    have hup := hbal hm
    simp only [RuntimeState.next] at h
    split_ifs at h
    cases h
    refine hi.goto hpc (.inr hm) hm (by simp [InstancePc.refs]) ?_
    simp only [InstancePc.refs] at hnonneg
    simp only [InstancePc.locked, Balanced, RuntimeState.goto, if_true] at hup ⊢
    rw [if_neg (by omega), hup]
  | unlockInit ret =>
    cases h
    have hm := held rfl
    have hb := hbal hm
    by_cases hret : ret = 0
    · rw [if_pos hret]
      exact hi.goto hpc (.inr hm) rfl (by simp [InstancePc.refs, RuntimeState.goto, hret]) hb
    · rw [if_neg hret]
      exact hi.goto hpc (.inr hm) rfl (by simp [InstancePc.refs, RuntimeState.goto, hret]) hb
  | lockDestroy =>
    simp only [RuntimeState.next] at h
    split_ifs at h with hm
    cases h
    exact hi.goto hpc (.inl hm) rfl (by simp [InstancePc.refs, RuntimeState.goto]) (hi.free hm)
  | decrement =>
    cases h
    have hm := held rfl
    have hb := hbal hm
    simp only [InstancePc.refs] at hnonneg
    simp only [Balanced] at hb
    rw [if_neg (by omega)] at hb
    exact hi.goto hpc (.inr hm) hm (by simp [InstancePc.refs]) hb
  | testLast =>
    cases h
    have hm := held rfl
    have hb := hbal hm
    by_cases hz : s.refCount = 0
    · simp only [if_pos hz]
      exact hi.goto hpc (.inr hm) hm (by simp [InstancePc.refs]) ⟨hz, hb⟩
    · simp only [if_neg hz]
      refine hi.goto hpc (.inr hm) hm (by simp [InstancePc.refs]) ?_
      simpa [InstancePc.locked, Balanced, RuntimeState.goto, hz] using hb
  | runtimeDestroy =>
    cases h
    have hm := held rfl
    obtain ⟨hz, hup⟩ := hbal hm
    refine hi.goto hpc (.inr hm) hm (by simp [InstancePc.refs, RuntimeState.goto]) ?_
    simp only [InstancePc.locked, Balanced, RuntimeState.goto, if_true]
    push_cast
    omega
  | unlockDestroy =>
    cases h
    have hm := held rfl
    exact hi.goto hpc (.inr hm) rfl (by simp [InstancePc.refs, RuntimeState.goto]) (hbal hm)
  | ended => cases h

theorem runtimeInv_step {modules : ℕ} {s t : RuntimeState} {a : RuntimeAction} (hi : RuntimeInv s)
    (hok : Registers modules s a) (h : runtimeStep modules s a = some t) : RuntimeInv t := by
  cases a with
  | enter => cases h; exact inv_enter hi
  | next i answer =>
    obtain ⟨pc, hpc, h⟩ := Option.bind_eq_some_iff.1 h
    exact inv_next hi hpc (fun j hj he => hok j hj (he ▸ hpc)) h

/-! ## A failed registration -/

/-- An instance holds the mutex on its way out of a failed init, with the runtime up and unreferenced. -/
def LeavesUp (s : RuntimeState) : Prop :=
  s.refCount = 0 ∧ (s.inits : ℤ) - s.destroys = 1 ∧
    ∃ i ret, s.mutex = some i ∧ s.instances[i]? = some (.unlockInit ret) ∧
      ∀ (j : ℕ) (pc : InstancePc), j ≠ i → s.instances[j]? = some pc → pc.locked = false

theorem leavesUp_of_failed {modules : ℕ} {s t : RuntimeState} {a : RuntimeAction} (hi : RuntimeInv s)
    (hok : ¬ Registers modules s a) (h : runtimeStep modules s a = some t) : LeavesUp t := by
  cases a with
  | enter => exact absurd trivial hok
  | next i answer =>
    simp only [Registers, not_forall] at hok
    obtain ⟨j, hj, hpc, ha⟩ := hok
    simp only [runtimeStep, hpc, Option.bind_some, RuntimeState.next, if_pos hj] at h
    cases h
    have hm := (hi.locked i _ hpc).1 rfl
    obtain ⟨hz, hup⟩ := hi.balanced i _ hpc hm
    refine ⟨hz, hup, i, -1, hm, ?_, fun k pc hk hpc' => ?_⟩
    · simp only [RuntimeState.goto, if_neg ha]
      exact getElem?_set_of_some hpc
    · simp only [RuntimeState.goto, List.getElem?_set_ne (Ne.symm hk)] at hpc'
      by_contra hl
      have hmk := (hi.locked k pc hpc').1 (by simpa using hl)
      rw [hm] at hmk
      cases hmk
      exact hk rfl

/-- Its unlock is the only step that ends this. -/
theorem leavesUp_step {modules : ℕ} {s t : RuntimeState} {a : RuntimeAction} (hs : LeavesUp s)
    (h : runtimeStep modules s a = some t) (hP : UpWhileReferenced t) : LeavesUp t := by
  obtain ⟨hz, hup, i, ret, hm, hpc, hother⟩ := hs
  cases a with
  | enter =>
    cases h
    refine ⟨hz, hup, i, ret, hm, getElem?_concat_of_some hpc, fun j pc hj hpcj => ?_⟩
    rcases getElem?_concat_some hpcj with hpcj | ⟨-, rfl⟩
    · exact hother j pc hj hpcj
    · rfl
  | next j answer =>
    obtain ⟨pc, hpcj, h⟩ := Option.bind_eq_some_iff.1 h
    by_cases hji : j = i
    · subst hji
      rw [hpc] at hpcj
      cases hpcj
      cases h
      have hzero := (hP rfl).2 hz
      simp only [RuntimeState.goto] at hzero
      omega
    · -- the others are outside the critical sections and find the mutex taken
      have hl := hother j pc hji hpcj
      have hne : s.mutex ≠ none := by simp [hm]
      cases pc <;> simp only [InstancePc.locked] at hl <;> try cases hl
      all_goals simp [RuntimeState.next, hne] at h

theorem not_up_of_leavesUp {modules : ℕ} {s : RuntimeState} (hs : LeavesUp s) :
    ∃ a t, runtimeStep modules s a = some t ∧ ¬ UpWhileReferenced t := by
  obtain ⟨hz, hup, i, ret, -, hpc, -⟩ := hs
  refine ⟨.next i true, { s.goto i (if ret = 0 then .lockDestroy else .ended) with mutex := none }, ?_, fun hP => ?_⟩
  · simp [runtimeStep, hpc, RuntimeState.next]
  · have hzero := (hP rfl).2 hz
    simp only [RuntimeState.goto] at hzero
    omega

/-- A failed registration still holds the mutex. -/
theorem upWhileReferenced_step {modules : ℕ} {s t : RuntimeState} {a : RuntimeAction} (hi : RuntimeInv s)
    (h : runtimeStep modules s a = some t) : UpWhileReferenced t := by
  by_cases hok : Registers modules s a
  · exact upWhileReferenced_of_inv (runtimeInv_step hi hok h)
  · obtain ⟨-, -, i, ret, hm, -⟩ := leavesUp_of_failed hi hok h
    intro hn
    rw [hm] at hn
    cases hn

/-- Through a run and its next step the runtime is up exactly while it is referenced, if and only if no
registration of an external module fails in the run. -/
theorem up_iff_registers {modules : ℕ} {s : RuntimeState} {as : List RuntimeAction}
    (h : exec (runtimeStep modules) .start as = some s) :
    (∀ b, Along (runtimeStep modules) UpWhileReferenced .start (as ++ [b])) ↔
      Meets (runtimeStep modules) (Registers modules) .start as :=
  along_next_iff_meets (fun _ hi => upWhileReferenced_of_inv hi) (fun _ _ _ hi hok ht => runtimeInv_step hi hok ht)
    (fun _ _ _ hi ht => upWhileReferenced_step hi ht) (fun _ _ _ hi hok ht => leavesUp_of_failed hi hok ht)
    (fun _ _ _ hs ht hP => leavesUp_step hs ht hP) (fun _ hs => not_up_of_leavesUp hs) runtimeInv_start h

/-- Two instances that overlap, after an init whose `wasm_runtime_init` failed. -/
def overlapping : List RuntimeAction :=
  [.enter, .next 0 true, .next 0 true, .next 0 false, .next 0 true, .enter, .enter, .next 1 true, .next 1 true,
    .next 1 true, .next 1 true, .next 1 true, .next 1 true, .next 1 true, .next 2 true, .next 2 true, .next 2 true,
    .next 2 true, .next 1 true, .next 1 true, .next 1 true, .next 1 true, .next 2 true, .next 2 true, .next 2 true,
    .next 2 true, .next 2 true]

theorem up_overlapping :
    (∃ s, exec (runtimeStep 1) .start overlapping = some s ∧ s.inits = 1 ∧ s.destroys = 1 ∧ s.mutex = none) ∧
      ∀ b, Along (runtimeStep 1) UpWhileReferenced .start (overlapping ++ [b]) := by
  have hm : Meets (runtimeStep 1) (Registers 1) .start overlapping := by decide
  exact ⟨⟨_, rfl, rfl, rfl, rfl⟩, (up_iff_registers rfl).2 hm⟩

/-- The first of two modules registers, the second does not. -/
def failedModule : List RuntimeAction :=
  [.enter, .next 0 true, .next 0 true, .next 0 true, .next 0 true, .next 0 false, .next 0 true]

theorem unreferenced_runtime_up :
    ¬ ∀ (modules : ℕ) (s : RuntimeState) (as : List RuntimeAction),
      exec (runtimeStep modules) .start as = some s → UpWhileReferenced s := by
  intro h
  exact absurd ((h 2 _ failedModule rfl rfl).2 rfl) (by decide)

end VelaWasm.Lwac
