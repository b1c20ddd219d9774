/-
`glue_pthread_once`, which hands its caller's env and routine to `init_routine_proxy` through two globals that
nothing guards. Each control is initialised once, but with the values stored last: those of the call that
performs the initialisation exactly when no other store has come between.
-/
import VelaWasm.Lib.ListSet
import VelaWasm.Lib.Run
import VelaWasm.Wamr

namespace VelaWasm.LibcBypass

open VelaWasm.Run

/-! ## Calls -/

/-- A `pthread_once_t`, with the call that initialises it. -/
inductive OnceControl where
  | fresh
  | running (call : ℕ)
  | done (call : ℕ)
  deriving DecidableEq, Repr

/-- The next statement of `glue_pthread_once`, and of `init_routine_proxy` in it. -/
inductive OncePc where
  | storeEnv
  | storeIdx
  /-- calls `pthread_once`, or waits in it -/
  | pthreadOnce
  /-- in `init_routine_proxy`, at the read of `pthread_once_env` -/
  | readEnv
  /-- at the read of `init_routine_idx` -/
  | readIdx (env : Addr)
  /-- in the wasm routine -/
  | routine (env : Addr) (idx : UInt32)
  /-- with what it has run -/
  | returned (ran : Option (Addr × UInt32))
  deriving DecidableEq, Repr

structure OnceCall where
  env : Addr
  /-- `parm1`, once it is compared with the native address of null -/
  control : Addr
  parm2 : UInt32
  pc : OncePc
  deriving DecidableEq, Repr

/-- The globals, the controls, and all calls that were ever made. -/
structure OnceState where
  pthreadOnceEnv : Addr
  initRoutineIdx : UInt32
  controls : Addr → OnceControl
  calls : List OnceCall

def OnceState.start : OnceState := ⟨null, 0, fun _ => .fresh, []⟩

inductive OnceAction where
  | call (env parm1 : Addr) (parm2 : UInt32)
  /-- the next statement of the `i`-th call -/
  | next (i : ℕ)
  deriving DecidableEq, Repr

def OnceState.goto (s : OnceState) (i : ℕ) (c : OnceCall) (pc : OncePc) : OnceState :=
  { s with calls := s.calls.set i { c with pc := pc } }

/-- The next statement of the `i`-th call `c`; `none` while it waits for an initialisation and when it has
returned. -/
def OnceState.next (s : OnceState) (i : ℕ) (c : OnceCall) : Option OnceState :=
  match c.pc with
  | .storeEnv => some { s.goto i c .storeIdx with pthreadOnceEnv := c.env }
  | .storeIdx => some { s.goto i c .pthreadOnce with initRoutineIdx := c.parm2 }
  | .pthreadOnce =>
    -- `pthread_once` refuses a null control
    if c.control = null then some (s.goto i c (.returned none))
    else
      match s.controls c.control with
      | .fresh => some { s.goto i c .readEnv with controls := Function.update s.controls c.control (.running i) }
      | .running _ => none
      | .done _ => some (s.goto i c (.returned none))
  | .readEnv => some (s.goto i c (.readIdx s.pthreadOnceEnv))
  | .readIdx env => some (s.goto i c (.routine env s.initRoutineIdx))
  | .routine env idx =>
    some { s.goto i c (.returned (some (env, idx))) with
      controls := Function.update s.controls c.control (.done i) }
  | .returned _ => none

def onceStep (W : Wamr) (s : OnceState) : OnceAction → Option OnceState
  | .call env parm1 parm2 =>
    let control := if parm1 = translate W env true null then null else parm1
    some { s with calls := s.calls ++ [⟨env, control, parm2, .storeEnv⟩] }
  | .next i => s.calls[i]?.bind fun c => s.next i c

/-! ## The property -/

def OncePc.atReadIdx : OncePc → Bool
  | readIdx _ => true
  | _ => false

/-- The call performs the initialisation of its control. -/
def OncePc.performs : OncePc → Bool
  | readEnv | readIdx _ | routine .. | returned (some _) => true
  | storeEnv | storeIdx | pthreadOnce | returned none => false

/-- What the call has read for the routine that it runs is its own. -/
def OnceCall.RunsOwn (c : OnceCall) : Prop :=
  match c.pc with
  | .readIdx env => env = c.env
  | .routine env idx | .returned (some (env, idx)) => env = c.env ∧ idx = c.parm2
  | .storeEnv | .storeIdx | .pthreadOnce | .readEnv | .returned none => True

/-- Each control is initialised by one call at most, and by then completely when a call for it returns; the
routine that a call runs is its own. -/
structure InitialisesOnce (s : OnceState) : Prop where
  unique : ∀ (i j : ℕ) (c d : OnceCall), s.calls[i]? = some c → s.calls[j]? = some d → c.pc.performs → d.pc.performs →
    c.control = d.control → i = j
  complete : ∀ (i : ℕ) (c : OnceCall) ran, s.calls[i]? = some c → c.pc = .returned ran → c.control ≠ null →
    ∃ (j : ℕ) (d : OnceCall) (run : Addr × UInt32), s.calls[j]? = some d ∧ d.control = c.control ∧ d.pc = .returned (some run)
  own : ∀ (i : ℕ) (c : OnceCall), s.calls[i]? = some c → c.RunsOwn

/-- When the proxy reads a global, it still has the value of the call that performs the initialisation. -/
def OwnValues (s : OnceState) : OnceAction → Prop
  | .call .. => True
  | .next i => ∀ c ∈ s.calls[i]?,
    (c.pc = .readEnv → s.pthreadOnceEnv = c.env) ∧ (c.pc.atReadIdx → s.initRoutineIdx = c.parm2)

instance (s : OnceState) : DecidablePred (OwnValues s)
  | .call .. => isTrue trivial
  | .next _ => Option.decidableForallMem _

/-! ## The invariant -/

/-- What a call at this statement says of its control. -/
def OncePc.marks (i : ℕ) : OncePc → Option OnceControl
  | readEnv | readIdx _ | routine .. => some (.running i)
  | returned (some _) => some (.done i)
  | storeEnv | storeIdx | pthreadOnce | returned none => none

structure OnceInv (s : OnceState) : Prop where
  marks : ∀ (i : ℕ) (c : OnceCall) k, s.calls[i]? = some c → c.pc.marks i = some k → s.controls c.control = k
  done : ∀ control (i : ℕ), s.controls control = .done i → ∃ (c : OnceCall) (run : Addr × UInt32), s.calls[i]? = some c ∧
    c.control = control ∧ c.pc = .returned (some run)
  returned : ∀ (i : ℕ) (c : OnceCall) ran, s.calls[i]? = some c → c.pc = .returned ran → c.control ≠ null →
    ∃ j, s.controls c.control = .done j

theorem onceInv_start : OnceInv .start :=
  ⟨fun _ _ _ h => by simp [OnceState.start] at h, fun _ _ h => (by cases h), fun _ _ _ h => by simp [OnceState.start] at h⟩

variable {W : Wamr} {s s' : OnceState} {i : ℕ} {c : OnceCall} {pc : OncePc}

theorem OncePc.marks_of_performs (h : pc.performs) : pc.marks i = some (.running i) ∨ pc.marks i = some (.done i) := by
  cases pc with
  | readEnv | readIdx _ | routine _ _ => exact .inl rfl
  | returned ran =>
    cases ran with
    | none => cases h
    | some _ => exact .inr rfl
  | storeEnv | storeIdx | pthreadOnce => cases h

theorem initialisesOnce_of_inv (hi : OnceInv s) (hown : ∀ (i : ℕ) (c : OnceCall), s.calls[i]? = some c → c.RunsOwn) :
    InitialisesOnce s := by
  refine ⟨fun i j c d hc hd hpc hpd hcd => ?_, fun i c ran hc hpc hnull => ?_, hown⟩
  · rcases OncePc.marks_of_performs (i := i) hpc with h | h <;>
      rcases OncePc.marks_of_performs (i := j) hpd with h' | h' <;>
      · have hci := hi.marks i c _ hc h
        have hdj := hi.marks j d _ hd h'
        rw [hcd, hdj] at hci
        cases hci
        try rfl
  · obtain ⟨j, hj⟩ := hi.returned i c ran hc hpc hnull
    obtain ⟨d, run, hd, hcontrol, hpd⟩ := hi.done _ j hj
    exact ⟨j, d, run, hd, hcontrol, hpd⟩

/-- The globals do not matter. -/
theorem OnceInv.globals (hi : OnceInv s) (hcalls : s'.calls = s.calls) (hcontrols : s'.controls = s.controls) :
    OnceInv s' := by
  refine ⟨?_, ?_, ?_⟩ <;> rw [hcalls, hcontrols]
  · exact hi.marks
  · exact hi.done
  · exact hi.returned

/-- A call that has not performed its initialisation goes on, with the controls as they are. -/
theorem OnceInv.goto (hi : OnceInv s) (hc : s.calls[i]? = some c) (hpc : ∀ ran, c.pc ≠ .returned ran)
    (hmarks : ∀ k, pc.marks i = some k → s.controls c.control = k)
    (hret : ∀ ran, pc = .returned ran → c.control ≠ null → ∃ j, s.controls c.control = .done j) :
    OnceInv (s.goto i c pc) := by
  refine ⟨fun j d k hd hk => ?_, fun control j hj => ?_, fun j d ran hd hran hnull => ?_⟩
  · rcases getElem?_set_some hd with ⟨rfl, rfl⟩ | ⟨-, hd⟩
    · exact hmarks k hk
    · exact hi.marks j d k hd hk
  · obtain ⟨d, run, hd, hcontrol, hrun⟩ := hi.done control j hj
    have hne : i ≠ j := by
      rintro rfl
      rw [hc] at hd
      cases hd
      exact hpc _ hrun
    exact ⟨d, run, (List.getElem?_set_ne hne).trans hd, hcontrol, hrun⟩
  · rcases getElem?_set_some hd with ⟨rfl, rfl⟩ | ⟨-, hd⟩
    · exact hret ran hran hnull
    · exact hi.returned j d ran hd hran hnull

theorem OncePc.eq_of_marks {k : OnceControl} (h : pc.marks i = some k) : k = .running i ∨ k = .done i := by
  cases pc with
  | readEnv | readIdx _ | routine _ _ =>
    cases h
    exact .inl rfl
  | returned ran =>
    cases ran with
    | none => cases h
    | some _ =>
      cases h
      exact .inr rfl
  | storeEnv | storeIdx | pthreadOnce => cases h

/-- A call begins or completes the initialisation of its control, which is in no other call's hands. -/
theorem OnceInv.setControl (hi : OnceInv s) (hc : s.calls[i]? = some c) (hpc : ∀ ran, c.pc ≠ .returned ran)
    (hother : ∀ j, j ≠ i → s.controls c.control ≠ .running j) (hnew : ∀ j, s.controls c.control ≠ .done j)
    {k : OnceControl} (hmarks : pc.marks i = some k) (hdone : k = .done i ↔ ∃ run, pc = .returned (some run)) :
    OnceInv { s.goto i c pc with controls := Function.update s.controls c.control k } := by
  have hne : ∀ {j : ℕ} {d : OnceCall} {l}, j ≠ i → s.calls[j]? = some d → d.pc.marks j = some l →
      d.control ≠ c.control := by
    intro j d l hj hd hl h
    have hcontrol := hi.marks j d l hd hl
    rw [h] at hcontrol
    rcases OncePc.eq_of_marks hl with rfl | rfl
    · exact hother j hj hcontrol
    · exact hnew j hcontrol
  refine ⟨fun j d l hd hl => ?_, fun control j hj => ?_, fun j d ran hd hran hnull => ?_⟩
  · rcases getElem?_set_some hd with ⟨rfl, rfl⟩ | ⟨hj, hd⟩
    · rw [hmarks] at hl
      cases hl
      exact Function.update_self _ _ _
    · exact (Function.update_of_ne (hne hj hd hl) _ _).trans (hi.marks j d l hd hl)
  · by_cases hcontrol : control = c.control
    · subst hcontrol
      have hk : k = .done j := (Function.update_self _ _ _).symm.trans hj
      have hji : j = i := by
        rcases OncePc.eq_of_marks hmarks with h | h
        · rw [h] at hk
          cases hk
        · rw [h] at hk
          cases hk
          rfl
      subst hji
      obtain ⟨run, hrun⟩ := hdone.1 hk
      exact ⟨{ c with pc := pc }, run, getElem?_set_of_some hc, rfl, hrun⟩
    · obtain ⟨d, run, hd, hdc, hrun⟩ := hi.done control j ((Function.update_of_ne hcontrol _ _).symm.trans hj)
      have hij : i ≠ j := by
        rintro rfl
        rw [hc] at hd
        cases hd
        exact hpc _ hrun
      exact ⟨d, run, (List.getElem?_set_ne hij).trans hd, hdc, hrun⟩
  · rcases getElem?_set_some hd with ⟨rfl, rfl⟩ | ⟨hj, hd⟩
    · have hrun : ∃ run, pc = .returned (some run) := by
        rcases ran with _ | run
        · have hran' : pc = .returned none := hran
          rw [hran'] at hmarks
          cases hmarks
        · exact ⟨run, hran⟩
      exact ⟨j, (Function.update_self _ _ _).trans (hdone.2 hrun)⟩
    · obtain ⟨l, hl⟩ := hi.returned j d ran hd hran hnull
      have hdc : d.control ≠ c.control := by
        intro h
        rw [h] at hl
        exact hnew l hl
      exact ⟨l, (Function.update_of_ne hdc _ _).trans hl⟩

/-- Every statement of a call keeps the invariant. -/
theorem OnceInv.next (hi : OnceInv s) (hc : s.calls[i]? = some c) (h : s.next i c = some s') : OnceInv s' := by
  unfold OnceState.next at h
  cases hpc : c.pc with
  | storeEnv =>
    rw [hpc] at h
    cases h
    have hgoto : OnceInv (s.goto i c .storeIdx) :=
      hi.goto hc (by simp [hpc]) (fun _ h => by cases h) (fun _ h => by cases h)
    exact hgoto.globals rfl rfl
  | storeIdx =>
    rw [hpc] at h
    cases h
    have hgoto : OnceInv (s.goto i c .pthreadOnce) :=
      hi.goto hc (by simp [hpc]) (fun _ h => by cases h) (fun _ h => by cases h)
    exact hgoto.globals rfl rfl
  | pthreadOnce =>
    rw [hpc] at h
    simp only at h
    split_ifs at h with hnull
    · cases h
      refine hi.goto hc (by simp [hpc]) (fun _ h => by cases h) (fun _ _ hne => absurd hnull hne)
    · cases hcontrol : s.controls c.control with
      | fresh =>
        rw [hcontrol] at h
        cases h
        refine hi.setControl hc (by simp [hpc]) (fun j _ h => ?_) (fun j h => ?_) rfl ?_
        · rw [hcontrol] at h
          cases h
        · rw [hcontrol] at h
          cases h
        · simp
      | running j =>
        rw [hcontrol] at h
        cases h
      | done j =>
        rw [hcontrol] at h
        cases h
        exact hi.goto hc (by simp [hpc]) (fun _ h => by cases h) (fun _ _ _ => ⟨j, hcontrol⟩)
  | readEnv | readIdx env =>
    rw [hpc] at h
    cases h
    have hrunning := hi.marks i c _ hc (by rw [hpc]; rfl)
    exact hi.goto hc (by simp [hpc]) (fun k hk => by cases hk; exact hrunning) (fun _ h => by cases h)
  | routine env idx =>
    rw [hpc] at h
    cases h
    have hrunning := hi.marks i c _ hc (by rw [hpc]; rfl)
    refine hi.setControl hc (by simp [hpc]) (fun j hj h => ?_) (fun j h => ?_) rfl ?_
    · rw [hrunning] at h
      cases h
      exact hj rfl
    · rw [hrunning] at h
      cases h
    · simp
  | returned ran =>
    rw [hpc] at h
    cases h

/-- A new call. -/
theorem OnceInv.call (hi : OnceInv s) (env control : Addr) (parm2 : UInt32) :
    OnceInv { s with calls := s.calls ++ [⟨env, control, parm2, .storeEnv⟩] } := by
  refine ⟨fun j d k hd hk => ?_, fun ctl j hj => ?_, fun j d ran hd hran hnull => ?_⟩
  · rcases getElem?_concat_some hd with hd | ⟨-, rfl⟩
    · exact hi.marks j d k hd hk
    · cases hk
  · obtain ⟨d, run, hd, hcontrol, hrun⟩ := hi.done ctl j hj
    exact ⟨d, run, getElem?_concat_of_some hd, hcontrol, hrun⟩
  · rcases getElem?_concat_some hd with hd | ⟨-, rfl⟩
    · exact hi.returned j d ran hd hran hnull
    · cases hran

/-! ## Steps -/

theorem onceStep_inv {a : OnceAction} (hi : OnceInv s) (h : onceStep W s a = some s') : OnceInv s' := by
  cases a with
  | call env parm1 parm2 =>
    cases h
    exact hi.call env _ parm2
  | next i =>
    obtain ⟨c, hc, hnext⟩ := Option.bind_eq_some_iff.1 h
    exact hi.next hc hnext

/-- A statement changes its own call alone. -/
theorem next_calls (h : s.next i c = some s') : ∃ pc, s'.calls = s.calls.set i { c with pc := pc } := by
  unfold OnceState.next at h
  split at h
  case h_3 =>
    split_ifs at h
    · cases h
      exact ⟨_, rfl⟩
    · split at h
      · cases h
        exact ⟨_, rfl⟩
      · cases h
      · cases h
        exact ⟨_, rfl⟩
  case h_7 => cases h
  all_goals
    cases h
    exact ⟨_, rfl⟩

/-- What the call has read stays its own exactly when it finds its own value where it reads one. -/
theorem next_runsOwn_iff (hc : s.calls[i]? = some c) (hown : c.RunsOwn) (h : s.next i c = some s') :
    (∀ d, s'.calls[i]? = some d → d.RunsOwn) ↔ OwnValues s (.next i) := by
  have hvalues : OwnValues s (.next i) ↔
      (c.pc = .readEnv → s.pthreadOnceEnv = c.env) ∧ (c.pc.atReadIdx → s.initRoutineIdx = c.parm2) := by
    simp [OwnValues, hc]
  have hset : ∀ pc, s'.calls = s.calls.set i { c with pc := pc } →
      ((∀ d, s'.calls[i]? = some d → d.RunsOwn) ↔ OnceCall.RunsOwn { c with pc := pc }) := by
    intro pc hcalls
    rw [hcalls, getElem?_set_of_some hc]
    simp
  rw [hvalues]
  unfold OnceState.next at h
  unfold OnceCall.RunsOwn at hown
  cases hpc : c.pc with
  | storeEnv | storeIdx =>
    rw [hpc] at h
    cases h
    rw [hset _ rfl]
    simp [OnceCall.RunsOwn, OncePc.atReadIdx]
  | pthreadOnce =>
    rw [hpc] at h
    simp only at h
    have hpcs : ∃ pc, (pc = .returned none ∨ pc = .readEnv) ∧ s'.calls = s.calls.set i { c with pc := pc } := by
      split_ifs at h
      · cases h
        exact ⟨_, .inl rfl, rfl⟩
      · split at h
        · cases h
          exact ⟨_, .inr rfl, rfl⟩
        · cases h
        · cases h
          exact ⟨_, .inl rfl, rfl⟩
    obtain ⟨pc, rfl | rfl, hcalls⟩ := hpcs <;>
    · rw [hset _ hcalls]
      simp [OnceCall.RunsOwn, OncePc.atReadIdx]
  | readEnv =>
    rw [hpc] at h
    cases h
    rw [hset _ rfl]
    simp [OnceCall.RunsOwn, OncePc.atReadIdx]
  | readIdx env =>
    rw [hpc] at h hown
    cases h
    rw [hset _ rfl]
    simp only at hown
    simp [OnceCall.RunsOwn, OncePc.atReadIdx, hown]
  | routine env idx =>
    rw [hpc] at h hown
    cases h
    rw [hset _ rfl]
    simp only at hown
    simp [OnceCall.RunsOwn, OncePc.atReadIdx, hown]
  | returned ran =>
    rw [hpc] at h
    cases h

theorem onceStep_own_iff {a : OnceAction} (hown : ∀ (i : ℕ) (c : OnceCall), s.calls[i]? = some c → c.RunsOwn)
    (h : onceStep W s a = some s') :
    (∀ (i : ℕ) (c : OnceCall), s'.calls[i]? = some c → c.RunsOwn) ↔ OwnValues s a := by
  cases a with
  | call env parm1 parm2 =>
    cases h
    refine iff_of_true (fun j d hd => ?_) trivial
    rcases getElem?_concat_some hd with hd | ⟨-, rfl⟩
    · exact hown j d hd
    · exact trivial
  | next i =>
    obtain ⟨c, hc, hnext⟩ := Option.bind_eq_some_iff.1 h
    rw [← next_runsOwn_iff hc (hown i c hc) hnext]
    obtain ⟨pc, hcalls⟩ := next_calls hnext
    refine ⟨fun h d => h i d, fun h j d hd => ?_⟩
    by_cases hj : j = i
    · exact h d (hj ▸ hd)
    · rw [hcalls, List.getElem?_set_ne (Ne.symm hj)] at hd
      exact hown j d hd

/-! ## Runs -/

/-- In a run each control is initialised once, with the env and the routine of the call that performs the
initialisation, exactly when that call finds its own values in the globals. -/
theorem initialisesOnce_iff_ownValues {as : List OnceAction} (h : exec (onceStep W) .start as = some s) :
    Along (onceStep W) InitialisesOnce .start as ↔ Meets (onceStep W) OwnValues .start as := by
  refine along_iff_meets
    (I := fun s => OnceInv s ∧ ∀ (i : ℕ) (c : OnceCall), s.calls[i]? = some c → c.RunsOwn)
    (fun _ hi => initialisesOnce_of_inv hi.1 hi.2) ?_ ?_ ⟨onceInv_start, ?_⟩ h
  · intro s a s' hi hok hstep
    exact ⟨onceStep_inv hi.1 hstep, (onceStep_own_iff hi.2 hstep).2 hok⟩
  · intro s a s' hi hbad hstep hp
    exact hbad ((onceStep_own_iff hi.2 hstep).1 hp.own)
  · intro i c hc
    simp [OnceState.start] at hc

/-- Two threads initialise one control; the second comes while the routine of the first runs, and waits. -/
def waitForRoutine : List OnceAction :=
  [.call 1 0x3000 7, .next 0, .next 0, .next 0, .next 0, .next 0, .call 2 0x3000 8, .next 1, .next 1, .next 0, .next 1]

theorem initialisesOnce_waitForRoutine :
    Along (onceStep (.linear id fun _ => 0x1000)) InitialisesOnce .start waitForRoutine :=
  (initialisesOnce_iff_ownValues (W := .linear id fun _ => 0x1000)
    (s := ((exec (onceStep (.linear id fun _ => 0x1000)) .start waitForRoutine).get (by decide))) (by simp)).2 (by decide)

/-- Two threads with a control each; the second stores its env and routine before the first calls `pthread_once`. -/
def overtakenCall : List OnceAction :=
  [.call 1 0x3000 7, .next 0, .next 0, .call 2 0x4000 8, .next 1, .next 1, .next 0, .next 0, .next 0]

/-- The first thread's control is initialised by the second thread's routine, in the second thread's env. -/
theorem overtaken_call_runs_other :
    ¬ ∀ (W : Wamr) (as : List OnceAction) (s : OnceState), exec (onceStep W) .start as = some s →
      InitialisesOnce s := by
  intro h
  have hown := (h (.linear id fun _ => 0x1000) overtakenCall _ rfl).own 0 ⟨1, 0x3000, 7, .routine 2 8⟩ rfl
  exact absurd hown.1 (by decide)

end VelaWasm.LibcBypass
