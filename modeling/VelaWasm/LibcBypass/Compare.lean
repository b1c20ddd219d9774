/-
`glue_qsort` and `glue_bsearch`, which hand the caller's env and comparator to `compare_proxy` through two
globals under a mutex, and the calls back into wasm that `compare_proxy` makes. The mutex keeps the globals
right for the call that holds it, whatever the other threads and the comparators do; but `compare_proxy`
translates the comparator, which is a table index, as if it were an address.
-/
import VelaWasm.Dbus.ArgsRoundTrip
import VelaWasm.Lib.Run
import VelaWasm.Tools.MkWamrGlue
import VelaWasm.Wamr

namespace VelaWasm.LibcBypass

open VelaWasm.Dbus VelaWasm.Run

/-! ## Calls -/

/-- The type of the comparator in the rows of `qsort` and `bsearch`. -/
def comparatorType : Tools.Text := "int(*)(FAR const void *,FAR const void *)".toList

/-- A word that the application passes, as the glue function receives it. -/
def received (W : Wamr) (env : Addr) (letter : Char) (arg : UInt32) : Addr :=
  if letter = '*' ∨ letter = '$' then W.addrAppToNative (W.getModuleInst env) arg else arg

inductive CompareFn where
  | qsort | bsearch
  deriving DecidableEq, Repr

/-- The next statement of a call of `glue_qsort` or `glue_bsearch`, and of `compare_proxy` in it. -/
inductive ComparePc where
  | lock
  | storeEnv
  | storeFunc
  /-- in the native function -/
  | algorithm
  /-- `compare_proxy` has read `g_compare_env` and the instance of it, and goes on to the call -/
  | proxy (moduleInst a b : Addr)
  /-- in the wasm comparator -/
  | comparator
  | unlock
  deriving DecidableEq, Repr

def ComparePc.inProxy : ComparePc → Bool
  | proxy .. => true
  | _ => false

/-- A call, with the comparator that the application passes. -/
structure CompareCall where
  fn : CompareFn
  env : Addr
  index : UInt32
  pc : ComparePc
  deriving DecidableEq, Repr

/-- `parm4` of `glue_qsort`, `parm5` of `glue_bsearch` -/
def CompareCall.parm (W : Wamr) (c : CompareCall) : Addr :=
  received W c.env (Tools.letter comparatorType) c.index

/-- A call back into wasm, and the call and the elements it is made for. -/
structure Comparison where
  env : Addr
  index : UInt32
  a : Addr
  b : Addr
  made : WasmCall
  deriving DecidableEq, Repr

/-- The globals, the calls of each thread with the innermost first, and the comparisons so far. -/
structure CompareState where
  /-- the thread that holds `g_compare_mutex` -/
  mutex : Option ℕ
  gCompareEnv : Addr
  gCompareFunc : Addr
  calls : ℕ → List CompareCall
  comparisons : List Comparison

def CompareState.start : CompareState := ⟨none, null, null, fun _ => [], []⟩

inductive CompareAction where
  /-- thread `t` calls, from outside of these functions or from a comparator -/
  | call (t : ℕ) (fn : CompareFn) (env : Addr) (index : UInt32)
  /-- the next statement of thread `t`'s innermost call -/
  | next (t : ℕ)
  /-- the native function compares the elements at `a` and `b` -/
  | compare (t : ℕ) (a b : Addr)
  /-- the native function is done -/
  | finish (t : ℕ)
  deriving DecidableEq, Repr

/-- Thread `t` goes on with its calls as given. -/
def CompareState.goto (s : CompareState) (t : ℕ) (calls : List CompareCall) : CompareState :=
  { s with calls := Function.update s.calls t calls }

section

variable (W : Wamr)

/-- What `compare_proxy` calls. -/
def CompareState.callIndirect (s : CompareState) (moduleInst a b : Addr) : WasmCall :=
  ⟨s.gCompareEnv, W.addrNativeToApp moduleInst s.gCompareFunc,
    [W.addrNativeToApp moduleInst a, W.addrNativeToApp moduleInst b]⟩

/-- The next statement of thread `t`'s innermost call `c`, inside the calls `outer`; `none` while the mutex is
held, and in the native function. -/
def CompareState.next (s : CompareState) (t : ℕ) (c : CompareCall) (outer : List CompareCall) : Option CompareState :=
  match c.pc with
  | .lock => if s.mutex = none then some { s.goto t ({ c with pc := .storeEnv } :: outer) with mutex := some t } else none
  | .storeEnv => some { s.goto t ({ c with pc := .storeFunc } :: outer) with gCompareEnv := c.env }
  | .storeFunc => some { s.goto t ({ c with pc := .algorithm } :: outer) with gCompareFunc := c.parm W }
  | .algorithm => none
  | .proxy moduleInst a b =>
    some { s.goto t ({ c with pc := .comparator } :: outer) with
      comparisons := s.comparisons ++ [⟨c.env, c.index, a, b, s.callIndirect W moduleInst a b⟩] }
  | .comparator => some (s.goto t ({ c with pc := .algorithm } :: outer))
  | .unlock => some { s.goto t outer with mutex := none }

/-- All threads. -/
def compareStep (s : CompareState) : CompareAction → Option CompareState
  | .call t fn env index =>
    match s.calls t with
    | [] => some (s.goto t [⟨fn, env, index, .lock⟩])
    | c :: outer => if c.pc = .comparator then some (s.goto t (⟨fn, env, index, .lock⟩ :: c :: outer)) else none
  | .next t =>
    match s.calls t with
    | [] => none
    | c :: outer => s.next W t c outer
  | .compare t a b =>
    match s.calls t with
    | [] => none
    | c :: outer =>
      if c.pc = .algorithm then
        some (s.goto t ({ c with pc := .proxy (W.getModuleInst s.gCompareEnv) a b } :: outer))
      else none
  | .finish t =>
    match s.calls t with
    | [] => none
    | c :: outer => if c.pc = .algorithm then some (s.goto t ({ c with pc := .unlock } :: outer)) else none

/-! ## The property -/

/-- The comparison runs, in the env of its call, the element that was passed to the call, on the application's
addresses. -/
def Comparison.Right (e : Comparison) : Prop :=
  e.made = ⟨e.env, e.index, [W.addrNativeToApp (W.getModuleInst e.env) e.a, W.addrNativeToApp (W.getModuleInst e.env) e.b]⟩

def CallsOwnComparators (s : CompareState) : Prop := ∀ e ∈ s.comparisons, e.Right W

/-- A comparison is only made for a call whose comparator's index is the same when translated as an address. -/
def IndexKept (s : CompareState) : CompareAction → Prop
  | .next t => ∀ c ∈ (s.calls t).head?, c.pc.inProxy → W.addrNativeToApp (W.getModuleInst c.env) c.index = c.index
  | .call .. | .compare .. | .finish .. => True

instance (e : Comparison) : Decidable (e.Right W) := inferInstanceAs (Decidable (_ = _))

instance (s : CompareState) : DecidablePred (IndexKept W s)
  | .next _ => Option.decidableForallMem _
  | .call .. | .compare .. | .finish .. => isTrue trivial

/-! ## The invariant -/

/-- The globals are those of the call, as far as it has stored and still needs them. -/
def CompareState.Serves (s : CompareState) (c : CompareCall) : Prop :=
  match c.pc with
  | .lock | .storeEnv | .unlock => True
  | .storeFunc => s.gCompareEnv = c.env
  | .algorithm | .comparator => s.gCompareEnv = c.env ∧ s.gCompareFunc = c.parm W
  | .proxy moduleInst _ _ => s.gCompareEnv = c.env ∧ s.gCompareFunc = c.parm W ∧ moduleInst = W.getModuleInst c.env

/-- The calls of thread `t`: at most one of them holds the mutex, and a call inside it waits for the mutex. -/
inductive CompareState.Calls (s : CompareState) (t : ℕ) : List CompareCall → Prop
  | none : Calls s t []
  | waiting {c : CompareCall} (h : c.pc = .lock) : Calls s t [c]
  | holding {c : CompareCall} (h : c.pc ≠ .lock) (hm : s.mutex = some t) (hs : s.Serves W c) : Calls s t [c]
  | nested {c d : CompareCall} (h : c.pc = .lock) (hd : d.pc = .comparator) (hm : s.mutex = some t)
      (hs : s.Serves W d) : Calls s t [c, d]

structure CompareInv (s : CompareState) : Prop where
  calls : ∀ t, s.Calls W t (s.calls t)
  right : CallsOwnComparators W s

end

variable {W : Wamr} {s s' : CompareState} {t : ℕ} {c : CompareCall} {outer l : List CompareCall}

/-- WAMR passes a function pointer on as it is. -/
theorem CompareCall.parm_eq (c : CompareCall) : c.parm W = c.index := by
  have hl : Tools.letter comparatorType = 'i' := by decide
  unfold parm received
  rw [hl]
  simp

theorem compareInv_start : CompareInv W .start := ⟨fun _ => .none, fun _ h => by cases h⟩

/-- The calls of a thread that does not hold the mutex do not use the globals. -/
theorem CompareState.Calls.frame (h : s.Calls W t l) (hs : s.mutex = some t →
      s'.mutex = s.mutex ∧ s'.gCompareEnv = s.gCompareEnv ∧ s'.gCompareFunc = s.gCompareFunc) : s'.Calls W t l := by
  have hserves : ∀ {c : CompareCall}, s.mutex = some t → s.Serves W c → s'.Serves W c := by
    intro c hm hc
    obtain ⟨-, he, hf⟩ := hs hm
    unfold Serves at hc ⊢
    rwa [he, hf]
  cases h with
  | none => exact .none
  | waiting h => exact .waiting h
  | holding h hm hc => exact .holding h ((hs hm).1.trans hm) (hserves hm hc)
  | nested h hd hm hc => exact .nested h hd ((hs hm).1.trans hm) (hserves hm hc)

/-- What a step of thread `t` does to the calls: its own are as the invariant wants them, and the mutex and the
globals change only when no other thread holds the mutex. -/
def StepsCalls (W : Wamr) (s s' : CompareState) (t : ℕ) : Prop :=
  ∃ l, s'.calls = Function.update s.calls t l ∧ s'.Calls W t l ∧ ∀ u ≠ t, s.mutex = some u →
    s'.mutex = s.mutex ∧ s'.gCompareEnv = s.gCompareEnv ∧ s'.gCompareFunc = s.gCompareFunc

theorem StepsCalls.calls (hs : StepsCalls W s s' t) (hi : ∀ u, s.Calls W u (s.calls u)) (u : ℕ) :
    s'.Calls W u (s'.calls u) := by
  obtain ⟨l, hl, ht, hu⟩ := hs
  rw [hl]
  by_cases h : u = t
  · subst h
    rwa [Function.update_self]
  · rw [Function.update_of_ne h]
    exact (hi u).frame (hu u h)

/-- A step that leaves the mutex and the globals. -/
theorem stepsCalls_goto (h : s.Calls W t l) : StepsCalls W s (s.goto t l) t :=
  ⟨l, rfl, h.frame fun _ => ⟨rfl, rfl, rfl⟩, fun _ _ _ => ⟨rfl, rfl, rfl⟩⟩

/-- The statements of a call. -/
theorem next_stepsCalls (hi : s.Calls W t (c :: outer)) (h : s.next W t c outer = some s') : StepsCalls W s s' t := by
  unfold CompareState.next at h
  cases hi with
  | waiting hc =>
    rw [hc] at h
    simp only at h
    split_ifs at h with hm
    cases h
    exact ⟨_, rfl, .holding (by simp) rfl trivial, fun u _ hu => by rw [hm] at hu; cases hu⟩
  | nested hc hd hm hs =>
    -- the thread waits for a mutex that it holds itself
    rw [hc] at h
    simp only [hm] at h
    cases h
  | holding hc hm hs =>
    have hother : ∀ u ≠ t, s.mutex ≠ some u := by
      intro u hu h
      exact hu (Option.some.inj (h.symm.trans hm))
    unfold CompareState.Serves at hs
    cases hpc : c.pc with
    | lock => exact absurd hpc hc
    | storeEnv =>
      rw [hpc] at h
      cases h
      exact ⟨_, rfl, .holding (by simp) hm rfl, fun u hu h => absurd h (hother u hu)⟩
    | storeFunc =>
      rw [hpc] at h hs
      cases h
      exact ⟨_, rfl, .holding (by simp) hm ⟨hs, rfl⟩, fun u hu h => absurd h (hother u hu)⟩
    | algorithm =>
      rw [hpc] at h
      cases h
    | proxy moduleInst a b =>
      rw [hpc] at h hs
      cases h
      exact ⟨_, rfl, .holding (by simp) hm ⟨hs.1, hs.2.1⟩, fun u hu h => absurd h (hother u hu)⟩
    | comparator =>
      rw [hpc] at h hs
      cases h
      exact ⟨_, rfl, .holding (by simp) hm hs, fun u hu h => absurd h (hother u hu)⟩
    | unlock =>
      rw [hpc] at h
      cases h
      exact ⟨_, rfl, .none, fun u hu h => absurd h (hother u hu)⟩

/-- In the native function a call holds the mutex and is alone. -/
theorem CompareState.Calls.of_algorithm (hi : s.Calls W t (c :: outer)) (hc : c.pc = .algorithm) :
    outer = [] ∧ s.mutex = some t ∧ s.gCompareEnv = c.env ∧ s.gCompareFunc = c.parm W := by
  cases hi with
  | waiting h => rw [hc] at h; cases h
  | nested h _ _ _ => rw [hc] at h; cases h
  | holding h hm hs =>
    unfold Serves at hs
    rw [hc] at hs
    exact ⟨rfl, hm, hs⟩

theorem compareStep_calls {a : CompareAction} (hi : ∀ u, s.Calls W u (s.calls u)) (h : compareStep W s a = some s')
    (u : ℕ) : s'.Calls W u (s'.calls u) := by
  cases a with
  | call t fn env index =>
    have ht := hi t
    simp only [compareStep] at h
    cases hl : s.calls t with
    | nil =>
      rw [hl] at h
      cases h
      exact (stepsCalls_goto (.waiting rfl)).calls hi u
    | cons c outer =>
      rw [hl] at h ht
      simp only at h
      split_ifs at h with hc
      cases h
      refine (stepsCalls_goto ?_).calls hi u
      cases ht with
      | waiting hw => rw [hc] at hw; cases hw
      | nested hw _ _ _ => rw [hc] at hw; cases hw
      | holding _ hm hs => exact .nested rfl hc hm hs
  | next t =>
    have ht := hi t
    simp only [compareStep] at h
    cases hl : s.calls t with
    | nil => rw [hl] at h; cases h
    | cons c outer =>
      rw [hl] at h ht
      exact (next_stepsCalls ht h).calls hi u
  | compare t a b =>
    have ht := hi t
    simp only [compareStep] at h
    cases hl : s.calls t with
    | nil => rw [hl] at h; cases h
    | cons c outer =>
      rw [hl] at h ht
      simp only at h
      split_ifs at h with hc
      cases h
      obtain ⟨rfl, hm, he, hf⟩ := ht.of_algorithm hc
      refine (stepsCalls_goto (.holding ?_ hm ?_)).calls hi u
      · simp
      · exact ⟨he, hf, congrArg W.getModuleInst he⟩
  | finish t =>
    have ht := hi t
    simp only [compareStep] at h
    cases hl : s.calls t with
    | nil => rw [hl] at h; cases h
    | cons c outer =>
      rw [hl] at h ht
      simp only at h
      split_ifs at h with hc
      cases h
      obtain ⟨rfl, hm, -⟩ := ht.of_algorithm hc
      refine (stepsCalls_goto (.holding ?_ hm ?_)).calls hi u
      · simp
      · exact trivial

/-- The comparison that the next statement of `c` makes, if any. -/
def CompareState.made (W : Wamr) (s : CompareState) (c : CompareCall) : List Comparison :=
  match c.pc with
  | .proxy moduleInst a b => [⟨c.env, c.index, a, b, s.callIndirect W moduleInst a b⟩]
  | _ => []

theorem next_comparisons (h : s.next W t c outer = some s') : s'.comparisons = s.comparisons ++ s.made W c := by
  unfold CompareState.next at h
  unfold CompareState.made
  cases hpc : c.pc with
  | proxy moduleInst a b =>
    rw [hpc] at h
    cases h
    rfl
  | lock =>
    rw [hpc] at h
    simp only at h
    split_ifs at h
    cases h
    exact (List.append_nil _).symm
  | algorithm =>
    rw [hpc] at h
    cases h
  | storeEnv | storeFunc | comparator | unlock =>
    rw [hpc] at h
    cases h
    exact (List.append_nil _).symm

/-- The comparison made for a call is right exactly when the translation keeps the index. -/
theorem made_right_iff (hi : s.Calls W t (c :: outer)) : (∀ e ∈ s.made W c, e.Right W) ↔
    (c.pc.inProxy → W.addrNativeToApp (W.getModuleInst c.env) c.index = c.index) := by
  have hnone : c.pc = .lock → ((∀ e ∈ s.made W c, e.Right W) ↔
      (c.pc.inProxy → W.addrNativeToApp (W.getModuleInst c.env) c.index = c.index)) := by
    intro h
    simp [CompareState.made, h, ComparePc.inProxy]
  cases hi with
  | waiting h => exact hnone h
  | nested h _ _ _ => exact hnone h
  | holding _ _ hs =>
    unfold CompareState.made
    unfold CompareState.Serves at hs
    cases hpc : c.pc with
    | proxy moduleInst a b =>
      rw [hpc] at hs
      obtain ⟨he, hf, rfl⟩ := hs
      rw [CompareCall.parm_eq] at hf
      simp [Comparison.Right, CompareState.callIndirect, he, hf, ComparePc.inProxy]
    | _ => simp [ComparePc.inProxy]

theorem compareStep_comparisons {a : CompareAction} (h : compareStep W s a = some s') :
    s'.comparisons = s.comparisons ++ match a with
      | .next t => ((s.calls t).head?.map (s.made W)).getD []
      | _ => [] := by
  cases a with
  | next t =>
    simp only [compareStep] at h
    cases hl : s.calls t with
    | nil =>
      rw [hl] at h
      cases h
    | cons c outer =>
      rw [hl] at h
      rw [next_comparisons h]
      simp [hl]
  | call t fn env index =>
    simp only [compareStep] at h
    rw [List.append_nil]
    split at h
    · cases h
      rfl
    · split_ifs at h
      cases h
      rfl
  | compare t a b | finish t =>
    simp only [compareStep] at h
    rw [List.append_nil]
    split at h
    · cases h
    · split_ifs at h
      cases h
      rfl

/-- A step keeps the comparisons right exactly when the one that it makes, if any, is of an index that the
translation keeps. -/
theorem compareStep_right_iff {a : CompareAction} (hi : CompareInv W s) (h : compareStep W s a = some s') :
    CallsOwnComparators W s' ↔ IndexKept W s a := by
  have hcmp := compareStep_comparisons h
  unfold CallsOwnComparators
  have hright : ∀ e ∈ s.comparisons, e.Right W := hi.right
  rw [hcmp, List.forall_mem_append, and_iff_right hright]
  cases a with
  | call _ _ _ _ | compare _ _ _ | finish _ => simp [IndexKept]
  | next t =>
    have ht := hi.calls t
    cases hl : s.calls t with
    | nil => simp [IndexKept, hl]
    | cons c outer =>
      rw [hl] at ht
      simpa [IndexKept, hl] using made_right_iff ht

/-! ## Runs -/

/-- In a run every comparison is right exactly when each one made is of an index that the translation keeps. -/
theorem callsOwnComparators_iff_indexKept {as : List CompareAction} (h : exec (compareStep W) .start as = some s) :
    Along (compareStep W) (CallsOwnComparators W) .start as ↔ Meets (compareStep W) (IndexKept W) .start as := by
  refine along_iff_meets (I := CompareInv W) (fun _ hi => hi.right) ?_ ?_ compareInv_start h
  · intro s a s' hi hok hstep
    exact ⟨compareStep_calls hi.calls hstep, (compareStep_right_iff hi hstep).2 hok⟩
  · intro s a s' hi hbad hstep hright
    exact hbad ((compareStep_right_iff hi hstep).1 hright)

/-- Thread 1 sorts with the table's element 0, while thread 2 waits. -/
def sortWithElementZero : List CompareAction :=
  [.call 1 .qsort 1 0, .next 1, .call 2 .bsearch 2 7, .next 1, .next 1, .compare 1 0x3000 0x3004, .next 1, .next 1,
    .finish 1, .next 1, .next 2]

theorem callsOwnComparators_sortWithElementZero :
    Along (compareStep (nullWamr 0x1000)) (CallsOwnComparators (nullWamr 0x1000)) .start sortWithElementZero :=
  (callsOwnComparators_iff_indexKept (W := nullWamr 0x1000)
    (s := ((exec (compareStep (nullWamr 0x1000)) .start sortWithElementZero).get (by decide))) (by simp)).2 (by decide)

/-- With the memory of the instance at 0x1000 element 5 becomes element 5 - 0x1000. -/
theorem translated_index_called :
    ¬ ∀ (getModuleInst base : Addr → Addr) (as : List CompareAction) (s : CompareState),
      exec (compareStep (.linear getModuleInst base)) .start as = some s →
      CallsOwnComparators (.linear getModuleInst base) s := by
  intro h
  have := h id (fun _ => 0x1000) [.call 1 .qsort 1 5, .next 1, .next 1, .next 1, .compare 1 0x3000 0x3004, .next 1] _ rfl
    _ (List.mem_singleton_self _)
  revert this
  decide

end VelaWasm.LibcBypass
