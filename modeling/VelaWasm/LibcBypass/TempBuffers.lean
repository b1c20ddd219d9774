/-
The temporary buffers of `_vprintf_wa`. A directive may take two blocks, one for its text and one for
its string, and the clean-up of the first is spread over every way out of its case; whichever way a
call ends, it has freed the blocks it was given, each once, and never a buffer on its stack.
-/
import VelaWasm.Lib.HeapTrace
import VelaWasm.LibcBypass.Printf

namespace VelaWasm.LibcBypass

open VelaWasm.HeapTrace VelaWasm.Run

/-! ## The calls of the allocator -/

/-- An event, as a call of the allocator. -/
def PrintfEvent.heapEvent : PrintfEvent → Option HeapEvent
  | malloc id _ ok => some (.alloc id ok)
  | free id => some (.free id)
  | _ => none

def heapEvents (evs : List PrintfEvent) : List HeapEvent := evs.filterMap PrintfEvent.heapEvent

/-- The block of a `fmt_buf`, unless it is `temp_fmt`. -/
def TempFormat.held (t : TempFormat) : List ℕ := t.heap.toList

/-- With `held` live at `s`, the rest of a step leaves no block live, and counts its calls. -/
def Settles (held : List ℕ) (s : PrintfState) (r : PrintfStep) : Prop :=
  ∃ n, exec traceStep ⟨held, s.mallocs⟩ (heapEvents r.1) = some ⟨[], n⟩ ∧ ∀ s', r.2 = .ok s' → s'.mallocs = n

variable {env : PrintfEnv} {e : Addr} {s s' : PrintfState} {t : TempFormat} {evs : List PrintfEvent}
  {r : Except PrintfEnd PrintfState} {held : List ℕ} {n : ℕ}

/-! ## Events that are no calls -/

@[simp]
theorem heapEvents_nil : heapEvents [] = [] := rfl

@[simp]
theorem heapEvents_append (evs evs' : List PrintfEvent) :
    heapEvents (evs ++ evs') = heapEvents evs ++ heapEvents evs' := List.filterMap_append

@[simp]
theorem heapEvents_malloc (id len : ℕ) (ok : Bool) (evs : List PrintfEvent) :
    heapEvents (.malloc id len ok :: evs) = .alloc id ok :: heapEvents evs := rfl

@[simp]
theorem heapEvents_free (id : ℕ) (evs : List PrintfEvent) :
    heapEvents (.free id :: evs) = .free id :: heapEvents evs := rfl

@[simp]
theorem heapEvents_fetch (k : ArgKind) (p : Addr) (evs : List PrintfEvent) :
    heapEvents (.fetch k p :: evs) = heapEvents evs := rfl

@[simp]
theorem heapEvents_exception (evs : List PrintfEvent) : heapEvents (.exception :: evs) = heapEvents evs := rfl

@[simp]
theorem heapEvents_out (cs : List Char) : heapEvents (cs.map .out) = [] := by
  unfold heapEvents
  rw [List.filterMap_map]
  exact List.filterMap_eq_nil_iff.2 fun _ _ => rfl

@[simp]
theorem heapEvents_printErr : heapEvents printErr = [] := rfl

@[simp]
theorem heapEvents_release : heapEvents t.release = t.held.map .free := by
  unfold TempFormat.release TempFormat.held
  cases t.heap <;> rfl

@[simp]
theorem heapEvents_removeModifier (buf : List Char) (i : ℕ) : heapEvents (removeModifier buf i).2 = [] := by
  unfold removeModifier
  simp only
  split_ifs <;> rfl

/-- The native `snprintf` and the output of what it renders. -/
@[simp]
theorem heapEvents_outputTempFormat (size : ℕ) (buf : List Char) (arg : PrintfArg) :
    heapEvents (outputTempFormat env t size buf arg) = heapEvents t.release := by
  unfold outputTempFormat
  rw [heapEvents_append]
  show heapEvents (List.map _ _) ++ _ = _
  rw [heapEvents_out, List.nil_append]

/-! ## Ways out of a directive -/

/-- What comes before the rest of a step. -/
theorem Settles.after {held' : List ℕ} {p : PrintfStep} (h : Settles held' s' p)
    (hevs : exec traceStep ⟨held, s.mallocs⟩ (heapEvents evs) = some ⟨held', s'.mallocs⟩) :
    Settles held s (evs ++ p.1, p.2) := by
  obtain ⟨n, hn, hs⟩ := h
  refine ⟨n, ?_, hs⟩
  rw [heapEvents_append, exec_append, hevs]
  exact hn

/-- The release of a `fmt_buf`, with `live` live besides it. -/
theorem exec_release (live : List ℕ) (n : ℕ) (h : ∀ id ∈ t.heap, id ∉ live) :
    exec traceStep ⟨live ++ t.held, n⟩ (heapEvents t.release) = some ⟨live, n⟩ := by
  rw [heapEvents_release, TempFormat.held]
  cases ht : t.heap with
  | none =>
    rw [Option.toList_none, List.append_nil]
    rfl
  | some id =>
    rw [Option.toList_some, List.map_singleton, exec_cons, traceStep_free (by simp),
      List.erase_append_right _ (h id ht), List.erase_cons_head, List.append_nil]
    rfl

/-- A way out that frees `fmt_buf` and calls `malloc` no more. -/
theorem settles_of_release (hevs : heapEvents evs = heapEvents t.release)
    (h : ∀ s', r = .ok s' → s'.mallocs = s.mallocs) : Settles t.held s (evs, r) := by
  refine ⟨s.mallocs, ?_, h⟩
  rw [hevs]
  exact exec_release [] s.mallocs fun _ _ => List.not_mem_nil

theorem settles_fail : Settles t.held s t.fail :=
  settles_of_release (by simp) fun s' hs => by cases hs

theorem settles_wideCase (arg : UInt64 → PrintfArg) : Settles t.held s (wideCase env e s t arg) := by
  unfold wideCase
  simp only
  split_ifs
  · refine settles_of_release (by simp) ?_
    rintro s' ⟨⟩
    rfl
  · exact settles_fail

theorem settles_intCase : Settles t.held s (intCase env e s t) := by
  unfold intCase
  split_ifs with hl hck h1
  · have hws := heapEvents_removeModifier t.buf s.directive.length
    cases hrm : removeModifier t.buf s.directive.length with
    | mk buf ws =>
      rw [hrm] at hws
      refine settles_of_release (by simp [hws]) ?_
      rintro s' ⟨⟩
      rfl
  · refine settles_of_release (by simp) ?_
    rintro s' ⟨⟩
    rfl
  · exact settles_fail
  · exact settles_wideCase _

/-- A string gets a block of its own while `fmt_buf` may have one. -/
theorem settles_strOutput (p : Addr) (h : ∀ id ∈ t.heap, id < s.mallocs) :
    Settles t.held s (strOutput env s t p) := by
  have hnew : ∀ id ∈ t.heap, id ∉ [s.mallocs] := fun id hid hmem =>
    absurd (h id hid) (Nat.not_lt_of_le (Nat.le_of_eq (List.mem_singleton.1 hmem).symm))
  unfold strOutput
  simp only
  generalize PrintfArg.str _ = arg
  split_ifs with hlong hlarge hok
  · refine settles_of_release (by simp) ?_
    rintro s' ⟨⟩
    rfl
  · -- the block of the string is the latest, and is freed behind that of the format
    refine ⟨s.mallocs + 1, ?_, ?_⟩
    · rw [List.cons_append, heapEvents_malloc, exec_cons, traceStep_alloc, heapEvents_append,
        heapEvents_outputTempFormat]
      show exec traceStep ⟨[s.mallocs] ++ t.held, _⟩ _ = _
      rw [exec_append, exec_release _ _ hnew, Option.bind_some, heapEvents_free, exec_cons,
        traceStep_free (List.mem_singleton_self _), List.erase_cons_head]
      rfl
    · rintro s' ⟨⟩
      rfl
  · refine ⟨s.mallocs + 1, ?_, ?_⟩
    · rw [List.cons_append, heapEvents_malloc, exec_cons, traceStep_alloc, heapEvents_append, heapEvents_printErr]
      exact exec_release [] _ fun _ _ => List.not_mem_nil
    · rintro s' ⟨⟩
      rfl
  · refine settles_of_release (by simp) ?_
    rintro s' ⟨⟩
    rfl

theorem settles_strCase (h : ∀ id ∈ t.heap, id < s.mallocs) : Settles t.held s (strCase env e s t) := by
  unfold strCase
  simp only
  split_ifs
  · obtain ⟨n, hn, hs⟩ : Settles t.held { s.leave with ap := s.ap + 4 } (strOutput env _ t (env.mem s.ap)) :=
      settles_strOutput _ h
    exact ⟨n, hn, hs⟩
  · exact settles_of_release (by simp) fun s' hs => by cases hs
  · exact settles_fail

/-! ## Directives -/

/-- A directive whose case settles with the buffer it is given. -/
theorem settles_withTempFormat {c : Char} {k : PrintfState → TempFormat → PrintfStep}
    (h : ∀ s t, (∀ id ∈ t.heap, id < s.mallocs) → Settles t.held s (k s t)) :
    Settles [] s (withTempFormat env s c k) := by
  unfold withTempFormat prepareTempFormat
  simp only
  by_cases hlong : 32 ≤ s.directive.length + 2
  · rw [if_pos hlong]
    cases hok : env.mallocOk s.mallocs with
    | true =>
      simp only [if_true]
      refine (h _ _ ?_).after ?_
      · rintro id ⟨⟩
        exact Nat.lt_succ_self s.mallocs
      · rw [heapEvents_malloc, exec_cons, traceStep_alloc]
        rfl
    | false =>
      -- the directive is skipped with nothing to free
      refine ⟨s.mallocs + 1, ?_, ?_⟩
      · show exec traceStep ⟨[], s.mallocs⟩ (.alloc s.mallocs false :: []) = _
        rw [exec_cons, traceStep_alloc]
        rfl
      · rintro s' ⟨⟩
        rfl
  · -- `temp_fmt`, which is on the stack
    rw [if_neg hlong]
    exact (h s _ fun id hid => by cases hid).after rfl

/-- A step that calls nothing. -/
theorem settles_quiet (hevs : heapEvents evs = []) (h : ∀ s', r = .ok s' → s'.mallocs = s.mallocs) :
    Settles [] s (evs, r) := by
  refine ⟨s.mallocs, ?_, h⟩
  rw [hevs]
  rfl

/-- Every character of a format, with no block live before it. -/
theorem settles_vprintfStep (c : Char) : Settles [] s (vprintfStep env e s c) := by
  cases hm : s.mightFormat with
  | false =>
    by_cases hc : c = '%'
    · rw [hc, vprintfStep_percent hm]
      refine settles_quiet rfl ?_
      rintro s' ⟨⟩
      rfl
    · rw [vprintfStep_literal hm hc]
      refine settles_quiet rfl ?_
      rintro s' ⟨⟩
      rfl
  | true =>
    rw [vprintfStep_directive hm]
    cases charClass c with
    | flag | half | size | max | long =>
      refine settles_quiet rfl ?_
      rintro s' ⟨⟩
      rfl
    | int => exact settles_withTempFormat fun s t _ => settles_intCase
    | float => exact settles_withTempFormat fun s t _ => settles_wideCase _
    | str => exact settles_withTempFormat fun s t h => settles_strCase h
    | other =>
      simp only
      split_ifs
      all_goals
        refine settles_quiet rfl ?_
        rintro s' ⟨⟩
        rfl

/-! ## The loop -/

theorem vprintfLoop_balanced (fmt : List Char) :
    ∃ n, exec traceStep ⟨[], s.mallocs⟩ (heapEvents (vprintfLoop env e s fmt).1) = some ⟨[], n⟩ := by
  induction fmt generalizing s with
  | nil => exact ⟨s.mallocs, rfl⟩
  | cons c fmt ih =>
    obtain ⟨n, hn, hs⟩ : Settles [] s (vprintfStep env e s c) := settles_vprintfStep c
    unfold vprintfLoop
    cases hstep : vprintfStep env e s c with
    | mk evs r =>
      rw [hstep] at hn hs
      cases r with
      | error r => exact ⟨n, hn⟩
      | ok s' =>
        obtain ⟨n', hn'⟩ := ih (s := s')
        refine ⟨n', ?_⟩
        rw [heapEvents_append, exec_append, hn, ← hs s' rfl]
        exact hn'

theorem vprintfWa_balanced (format : List Char) (ap : Addr) :
    Balanced (heapEvents (vprintfWa env format ap).1) := by
  unfold vprintfWa
  cases env.nativeEndAddr with
  | none => exact ⟨0, rfl⟩
  | some e => exact vprintfLoop_balanced (s := ⟨false, 0, [], ap, 0⟩) format

theorem mem_allocated_iff {id : ℕ} : id ∈ allocated (heapEvents evs) ↔ ∃ len, .malloc id len true ∈ evs := by
  unfold allocated heapEvents
  simp only [List.mem_filterMap]
  constructor
  · rintro ⟨h, ⟨ev, hev, hh⟩, hid⟩
    cases ev with
    | malloc i len ok =>
      cases hh
      cases ok with
      | false => cases hid
      | true =>
        cases hid
        exact ⟨len, hev⟩
    | free i =>
      cases hh
      cases hid
    | _ => cases hh
  · rintro ⟨len, hev⟩
    exact ⟨.alloc id true, ⟨_, hev, rfl⟩, rfl⟩

theorem count_freed {id : ℕ} : (freed (heapEvents evs)).count id = evs.count (.free id) := by
  induction evs with
  | nil => rfl
  | cons ev evs ih =>
    cases ev with
    | free i =>
      have hfreed : freed (heapEvents (.free i :: evs)) = i :: freed (heapEvents evs) := rfl
      rw [hfreed, List.count_cons, List.count_cons, ih]
      simp
    | malloc i len ok =>
      rw [List.count_cons_of_ne (by simp), ← ih]
      rfl
    | _ =>
      rw [List.count_cons_of_ne (by simp), ← ih]
      rfl

/-- However a call ends, its calls of the allocator are balanced: each block it was given it has freed exactly
once, and it has freed nothing else, so no buffer on its stack. -/
theorem vprintfWa_frees_temp_buffers (env : PrintfEnv) (format : List Char) (ap : Addr) :
    Balanced (heapEvents (vprintfWa env format ap).1) ∧
      (∀ id len, .malloc id len true ∈ (vprintfWa env format ap).1 →
        (vprintfWa env format ap).1.count (.free id) = 1) ∧
      ∀ id, .free id ∈ (vprintfWa env format ap).1 → ∃ len, .malloc id len true ∈ (vprintfWa env format ap).1 := by
  have hb : Balanced (heapEvents (vprintfWa env format ap).1) := vprintfWa_balanced format ap
  obtain ⟨honce, honly⟩ := hb.freed_once
  refine ⟨hb, fun id len hid => ?_, fun id hid => ?_⟩
  · rw [← count_freed]
    exact honce id (mem_allocated_iff.2 ⟨len, hid⟩)
  · refine mem_allocated_iff.1 (honly id ?_)
    rw [← List.count_pos_iff, count_freed]
    exact List.count_pos_iff.2 hid

end VelaWasm.LibcBypass
