/-
Sorting and searching from a comparator. `glue_qsort` and `glue_bsearch` hold `g_compare_mutex` while the native
function calls the comparator back, so a comparator that calls one of them waits for a mutex that its own thread
holds. Nothing else blocks a thread on itself, and no comparison uses the globals of another call.
-/
import VelaWasm.LibcBypass.Compare

namespace VelaWasm.LibcBypass

open VelaWasm.Dbus VelaWasm.Run

/-! ## The property -/

section

variable (W : Wamr)

/-- No thread waits for the mutex while it holds it. -/
def NeverSelfBlocked (s : CompareState) : Prop := ∀ t, s.mutex = some t → ∀ c ∈ (s.calls t).head?, c.pc ≠ .lock

/-- The comparison runs in the env of its call, and what `compare_proxy` makes of that call's comparator. -/
def Comparison.Own (e : Comparison) : Prop :=
  e.made.execEnv = e.env ∧ e.made.elementIndex = W.addrNativeToApp (W.getModuleInst e.env) e.index

def SortsUnblocked (s : CompareState) : Prop := NeverSelfBlocked s ∧ ∀ e ∈ s.comparisons, e.Own W

/-- The call is not made from a comparator. -/
def NotNested (s : CompareState) : CompareAction → Prop
  | .call t _ _ _ => s.calls t = []
  | .next _ | .compare .. | .finish _ => True

instance (s : CompareState) : DecidablePred (NotNested s)
  | .call .. => inferInstanceAs (Decidable (_ = _))
  | .next _ | .compare .. | .finish _ => isTrue trivial

/-! ## The invariant -/

/-- The thread that holds the mutex is past the lock of one of its calls, and no call is inside another. -/
structure FlatInv (s : CompareState) : Prop where
  calls : ∀ t, s.Calls W t (s.calls t)
  held : ∀ t, s.mutex = some t → ∃ c ∈ s.calls t, c.pc ≠ .lock
  flat : ∀ t, (s.calls t).length ≤ 1
  own : ∀ e ∈ s.comparisons, e.Own W

end

variable {W : Wamr} {s s' : CompareState} {t : ℕ} {c : CompareCall} {outer l : List CompareCall}

theorem flatInv_start : FlatInv W .start where
  calls _ := .none
  held _ h := by cases h
  flat _ := Nat.zero_le _
  own _ h := by cases h

theorem FlatInv.sortsUnblocked (h : FlatInv W s) : SortsUnblocked W s := by
  refine ⟨fun t hm c hc => ?_, h.own⟩
  obtain ⟨d, hd, hpc⟩ := h.held t hm
  have hflat := h.flat t
  cases hl : s.calls t with
  | nil =>
    rw [hl] at hc
    cases hc
  | cons e l =>
    rw [hl] at hc hd hflat
    have hnil : l = [] := List.length_eq_zero_iff.1 (by simpa using hflat)
    subst hnil
    cases hc
    rwa [← List.mem_singleton.1 hd]

/-- What a step inside a call does: the call is then past its lock, or it has returned and given up the mutex. -/
structure Moves (s s' : CompareState) (t : ℕ) (l : List CompareCall) : Prop where
  calls : s'.calls = Function.update s.calls t l
  length : l.length ≤ (s.calls t).length
  mutex : s'.mutex = none ∨ (s'.mutex = s.mutex ∨ s'.mutex = some t) ∧ ∃ c ∈ l, c.pc ≠ .lock

theorem moves_goto {d : CompareCall} (hl : s.calls t = c :: outer) (hd : d.pc ≠ .lock) :
    Moves s (s.goto t (d :: outer)) t (d :: outer) where
  calls := rfl
  length := by simp [hl]
  mutex := .inr ⟨.inl rfl, d, List.mem_cons_self, hd⟩

theorem next_moves (hl : s.calls t = c :: outer) (h : s.next W t c outer = some s') : ∃ l, Moves s s' t l := by
  have hlen : ∀ d : CompareCall, (d :: outer).length ≤ (s.calls t).length := fun _ => by simp [hl]
  have hdrop : outer.length ≤ (s.calls t).length := by simp [hl]
  unfold CompareState.next at h
  cases hpc : c.pc with
  | lock =>
    simp only [hpc] at h
    split_ifs at h
    cases h
    exact ⟨_, rfl, hlen _, .inr ⟨.inr rfl, _, List.mem_cons_self, by simp⟩⟩
  | algorithm =>
    rw [hpc] at h
    cases h
  | storeEnv | storeFunc | proxy _ _ _ | comparator =>
    rw [hpc] at h
    cases h
    exact ⟨_, rfl, hlen _, .inr ⟨.inl rfl, _, List.mem_cons_self, by simp⟩⟩
  | unlock =>
    rw [hpc] at h
    cases h
    exact ⟨_, rfl, hdrop, .inl rfl⟩

/-- The thread of a step, and its calls after it. -/
theorem compareStep_moves {a : CompareAction} (h : compareStep W s a = some s') :
    (∃ t fn env index, a = .call t fn env index ∧ s' = s.goto t (⟨fn, env, index, .lock⟩ :: s.calls t) ∧
      ∀ c ∈ (s.calls t).head?, c.pc = .comparator) ∨
      ∃ t l, NotNested s a ∧ Moves s s' t l := by
  cases a with
  | call t fn env index =>
    refine .inl ⟨t, fn, env, index, rfl, ?_⟩
    simp only [compareStep] at h
    cases hl : s.calls t with
    | nil =>
      rw [hl] at h
      cases h
      exact ⟨rfl, fun c hc => by cases hc⟩
    | cons c outer =>
      rw [hl] at h
      simp only at h
      split_ifs at h with hc
      cases h
      refine ⟨rfl, fun d hd => ?_⟩
      cases hd
      exact hc
  | next t =>
    simp only [compareStep] at h
    cases hl : s.calls t with
    | nil => rw [hl] at h; cases h
    | cons c outer =>
      rw [hl] at h
      obtain ⟨l, hm⟩ := next_moves hl h
      exact .inr ⟨t, l, trivial, hm⟩
  | compare t a b | finish t =>
    simp only [compareStep] at h
    cases hl : s.calls t with
    | nil => rw [hl] at h; cases h
    | cons c outer =>
      rw [hl] at h
      simp only at h
      split_ifs at h
      cases h
      exact .inr ⟨t, _, trivial, moves_goto hl (by simp)⟩

/-- A comparison that is made uses the globals of its own call. -/
theorem made_own (hi : s.Calls W t (c :: outer)) : ∀ e ∈ s.made W c, e.Own W := by
  intro e he
  unfold CompareState.made at he
  cases hpc : c.pc with
  | proxy moduleInst a b =>
    rw [hpc] at he
    rw [List.mem_singleton.1 he]
    cases hi with
    | waiting h => rw [hpc] at h; cases h
    | nested h _ _ _ => rw [hpc] at h; cases h
    | holding _ _ hs =>
      unfold CompareState.Serves at hs
      rw [hpc] at hs
      obtain ⟨henv, hfunc, rfl⟩ := hs
      refine ⟨henv, ?_⟩
      show W.addrNativeToApp _ s.gCompareFunc = _
      rw [hfunc, CompareCall.parm_eq]
  | lock | storeEnv | storeFunc | algorithm | comparator | unlock =>
    rw [hpc] at he
    cases he

theorem own_step {a : CompareAction} (hi : FlatInv W s) (h : compareStep W s a = some s') :
    ∀ e ∈ s'.comparisons, e.Own W := by
  rw [compareStep_comparisons h]
  refine List.forall_mem_append.2 ⟨hi.own, ?_⟩
  cases a with
  | call _ _ _ _ | compare _ _ _ | finish _ => exact fun e he => by cases he
  | next t =>
    have ht := hi.calls t
    cases hl : s.calls t with
    | nil => exact fun e he => by simp [hl] at he
    | cons c outer =>
      rw [hl] at ht
      simpa [hl] using made_own ht

/-- A step within the calls keeps the holder past its lock and adds no call. -/
theorem Moves.keeps (hm : Moves s s' t l) (hi : FlatInv W s) :
    (∀ u, s'.mutex = some u → ∃ c ∈ s'.calls u, c.pc ≠ .lock) ∧ ∀ u, (s'.calls u).length ≤ 1 := by
  rw [hm.calls]
  constructor
  · intro u hu
    rcases hm.mutex with hnone | ⟨hmutex, hl⟩
    · rw [hnone] at hu
      cases hu
    · by_cases hut : u = t
      · subst hut
        rwa [Function.update_self]
      · rw [Function.update_of_ne hut]
        rcases hmutex with hsame | ht
        · exact hi.held u (hsame ▸ hu)
        · exact absurd (Option.some.inj (hu.symm.trans ht)) hut
  · intro u
    by_cases hut : u = t
    · subst hut
      rw [Function.update_self]
      exact Nat.le_trans hm.length (hi.flat u)
    · rw [Function.update_of_ne hut]
      exact hi.flat u

theorem flatInv_step {a : CompareAction} (hi : FlatInv W s) (hok : NotNested s a) (h : compareStep W s a = some s') :
    FlatInv W s' := by
  have hcalls := compareStep_calls hi.calls h
  have hown := own_step hi h
  rcases compareStep_moves h with ⟨t, fn, env, index, rfl, rfl, -⟩ | ⟨t, l, -, hm⟩
  · -- a thread outside of its calls holds nothing
    have hnil : s.calls t = [] := hok
    refine ⟨hcalls, fun u hu => ?_, fun u => ?_, hown⟩
    · have hut : u ≠ t := by
        rintro rfl
        obtain ⟨c, hc, -⟩ := hi.held u hu
        rw [hnil] at hc
        cases hc
      simp only [CompareState.goto, Function.update_of_ne hut]
      exact hi.held u hu
    · by_cases hut : u = t
      · subst hut
        simp [CompareState.goto, hnil]
      · simp only [CompareState.goto, Function.update_of_ne hut]
        exact hi.flat u
  · obtain ⟨hheld, hflat⟩ := hm.keeps hi
    exact ⟨hcalls, hheld, hflat, hown⟩

/-- A comparator that sorts or searches waits for the mutex that its own thread holds. -/
theorem nested_blocked {a : CompareAction} (hi : FlatInv W s) (hbad : ¬ NotNested s a)
    (h : compareStep W s a = some s') : ¬ SortsUnblocked W s' := by
  rcases compareStep_moves h with ⟨t, fn, env, index, rfl, rfl, hcomp⟩ | ⟨t, l, hok, -⟩
  · rintro ⟨hblocked, -⟩
    have ht := hi.calls t
    cases hl : s.calls t with
    | nil => exact hbad hl
    | cons c outer =>
      rw [hl] at ht hcomp
      have hc : c.pc = .comparator := hcomp c rfl
      have hmutex : s.mutex = some t := by
        cases ht with
        | waiting hw => rw [hc] at hw; cases hw
        | holding _ hm _ => exact hm
        | nested hw _ _ _ => rw [hc] at hw; cases hw
      exact hblocked t hmutex ⟨fn, env, index, .lock⟩ (by simp [CompareState.goto]) rfl
  · exact absurd hok hbad

/-- In a run no thread blocks on itself, and each comparison is its own call's, exactly when no comparator sorts
or searches. -/
theorem sortsUnblocked_iff_notNested {as : List CompareAction} (h : exec (compareStep W) .start as = some s) :
    Along (compareStep W) (SortsUnblocked W) .start as ↔ Meets (compareStep W) NotNested .start as :=
  along_iff_meets (I := FlatInv W) (fun _ hi => hi.sortsUnblocked)
    (fun _ _ _ hi hok hstep => flatInv_step hi hok hstep)
    (fun _ _ _ hi hbad hstep => nested_blocked hi hbad hstep) flatInv_start h

/-- Thread 1 sorts, and thread 2 searches after it. -/
def sortThenSearch : List CompareAction :=
  [.call 1 .qsort 1 5, .next 1, .call 2 .bsearch 2 7, .next 1, .next 1, .compare 1 0x3000 0x3004, .next 1, .next 1,
    .finish 1, .next 1, .next 2, .next 2, .next 2, .compare 2 0x4000 0x4004, .next 2]

theorem sortsUnblocked_sortThenSearch :
    Along (compareStep (nullWamr 0x1000)) (SortsUnblocked (nullWamr 0x1000)) .start sortThenSearch :=
  (sortsUnblocked_iff_notNested (W := nullWamr 0x1000)
    (s := (exec (compareStep (nullWamr 0x1000)) .start sortThenSearch).get (by decide)) (by simp)).2 (by decide)

/-- A comparator that searches. -/
theorem nestedSearch_blocked :
    ¬ ∀ (W : Wamr) (as : List CompareAction) (s : CompareState), exec (compareStep W) .start as = some s →
      SortsUnblocked W s := by
  intro h
  have := (h (nullWamr 0x1000) [.call 1 .qsort 1 5, .next 1, .next 1, .next 1, .compare 1 0x3000 0x3004, .next 1,
    .call 1 .bsearch 1 6] _ rfl).1 1 rfl ⟨.bsearch, 1, 6, .lock⟩ rfl
  exact this rfl

end VelaWasm.LibcBypass
