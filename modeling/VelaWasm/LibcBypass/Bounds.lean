/-
The memory `_vprintf_wa` reads and writes. `CHECK_VA_ARG` compares the end of an argument with that of the
linear memory, in the machine's words: an argument is inside the memory exactly when its end, as a number, is an
address. The buffer of a directive is as long as the directive needs, whatever its length.
-/
import VelaWasm.Lib.Run
import VelaWasm.LibcBypass.Cursor

namespace VelaWasm.LibcBypass

open VelaWasm.Align VelaWasm.Run

/-! ## What is in bounds -/

/-- The linear memory from `start` up to `e` has the address `ap`. -/
structure InMemory (start e ap : Addr) : Prop where
  start_ne : start ≠ null
  le : start ≤ ap
  lt : ap < e

/-- `fmt_buf_len` at the end of a directive of `n` characters and its conversion -/
def fmtBufLen (n : ℕ) : ℕ := if 32 ≤ n + 2 then n + 2 else 32

/-- The accesses to a `fmt_buf` of `len` characters are inside it. -/
def PrintfEvent.FitsBuffer (len : ℕ) : PrintfEvent → Prop
  | copy l n => l = len ∧ n < len
  | write l idx => l = len ∧ idx < len
  | snprintf fmtBuf _ _ => fmtBuf.length = len ∧ nul ∈ fmtBuf
  | _ => True

section

variable (env : PrintfEnv) (e : Addr)

/-- The argument taken by the directive that ends with `c`, which has a buffer for its text. -/
def PrintfState.takes (s : PrintfState) (c : Char) : Option ArgKind :=
  if s.Skips env c then none else s.consumes c

/-- The loop, as a machine that takes the characters of the format. -/
def loopStep (s : PrintfState) (c : Char) : Option PrintfState :=
  match (vprintfStep env e s c).2 with
  | .ok s' => some s'
  | .error _ => none

/-- What one character of the format reads is between `ap` and `e`, or the run ends with the exception; what it writes
is in `fmt_buf`. -/
structure StepInBounds (ap : Addr) (s : PrintfState) (c : Char) : Prop where
  reads : ∀ a ∈ fetches (vprintfStep env e s c).1, ap.toNat ≤ a.2.toNat ∧ a.2.toNat + a.1.width ≤ e.toNat
  stops : ∀ k ∈ s.takes env c, e.toNat < k.place s.ap.toNat + k.width →
    .exception ∈ (vprintfStep env e s c).1 ∧ (vprintfStep env e s c).2 = .error .outOfBounds
  /-- `fmt_end_idx - 1` is an index. -/
  directive : s.mightFormat = true → s.directive ≠ []
  buffer : ∀ ev ∈ (vprintfStep env e s c).1, ev.FitsBuffer (fmtBufLen s.directive.length)

structure InBounds (format : List Char) (ap : Addr) : Prop where
  reads : ∀ a ∈ fetches (vprintfWa env format ap).1, ap.toNat ≤ a.2.toNat ∧ a.2.toNat + a.1.width ≤ e.toNat
  steps : Meets (loopStep env e) (StepInBounds env e ap) (.start ap) format

/-- The end of the argument that is taken, if any, is an address. -/
def ArgumentFits (s : PrintfState) (c : Char) : Prop := ∀ k ∈ s.takes env c, k.place s.ap.toNat + k.width < 2 ^ 32

instance (s : PrintfState) (c : Char) : Decidable (ArgumentFits env s c) :=
  inferInstanceAs (Decidable (∀ k ∈ s.takes env c, _))

end

/-! ## The check -/

variable {env : PrintfEnv} {e ap : Addr} {s s' : PrintfState} {t : TempFormat} {c : Char} {k : ArgKind} {q w : ℕ}

theorem alignAp_eq (a : Addr) : alignAp a = UInt32.ofNat (align8 a.toNat) := by
  have hlt := a.toNat_lt
  have hadd : (a + 7).toNat = (a.toNat + 7) % 2 ^ 32 := UInt32.toNat_add _ _
  apply UInt32.toNat_inj.1
  rw [alignAp, toNat_and_not7, hadd, UInt32.toNat_ofNat', align8]
  omega

theorem toNat_argEnd (q w : ℕ) : (UInt32.ofNat q + UInt32.ofNat w).toNat = (q + w) % 2 ^ 32 := by
  rw [← UInt32.ofNat_add]
  exact UInt32.toNat_ofNat'

theorem checkVaArg_iff (h : q + w < 2 ^ 32) :
    checkVaArg e (UInt32.ofNat q) (UInt32.ofNat w) = true ↔ q + w ≤ e.toNat := by
  unfold checkVaArg
  rw [Bool.not_eq_true', decide_eq_false_iff_not, UInt32.lt_iff_toNat_lt, toNat_argEnd, Nat.mod_eq_of_lt h, Nat.not_lt]

/-- An argument whose end wraps passes. -/
theorem checkVaArg_of_wraps (hq : q ≤ 2 ^ 32) (hw : w ≤ e.toNat) (h : 2 ^ 32 ≤ q + w) :
    checkVaArg e (UInt32.ofNat q) (UInt32.ofNat w) = true := by
  have hlt := e.toNat_lt
  unfold checkVaArg
  rw [Bool.not_eq_true', decide_eq_false_iff_not, UInt32.lt_iff_toNat_lt, toNat_argEnd]
  omega

theorem place_le (k : ArgKind) (a : Addr) : k.place a.toNat ≤ 2 ^ 32 := by
  have hlt := a.toNat_lt
  cases k with
  | word | string => exact hlt.le
  | wide =>
    rw [ArgKind.place, align8]
    omega

theorem width_le (k : ArgKind) : k.width ≤ 8 := by cases k <;> decide

/-! ## Arguments -/

/-- A conversion with its buffer takes its argument if the check lets it. -/
structure TakesArg (e : Addr) (r : PrintfStep) (s : PrintfState) (t : TempFormat) (k : ArgKind) : Prop where
  passed : checkVaArg e (UInt32.ofNat (k.place s.ap.toNat)) (UInt32.ofNat k.width) = true →
    FetchesArg r s k s.ap.toNat
  failed : checkVaArg e (UInt32.ofNat (k.place s.ap.toNat)) (UInt32.ofNat k.width) = false → r = t.fail

theorem takesArg_wideCase (arg : UInt64 → PrintfArg) : TakesArg e (wideCase env e s t arg) s t .wide := by
  unfold wideCase
  rw [alignAp_eq]
  constructor
  · intro h
    have hck : checkVaArg e (UInt32.ofNat (align8 s.ap.toNat)) 8 = true := h
    simp only [hck, if_true]
    refine ⟨by simp [ArgKind.place], ?_⟩
    rintro s' ⟨⟩
    exact ⟨rfl, rfl, (UInt32.ofNat_add _ _).symm⟩
  · intro h
    have hck : checkVaArg e (UInt32.ofNat (align8 s.ap.toNat)) 8 = false := h
    simp only [hck, Bool.false_eq_true, if_false]

theorem takesArg_intCase_word (hl : s.longCtr < 2) : TakesArg e (intCase env e s t) s t .word := by
  unfold intCase
  rw [if_pos hl]
  constructor
  · intro h
    rw [ArgKind.place, UInt32.ofNat_toNat] at h
    have hck : checkVaArg e s.ap 4 = true := h
    rw [if_pos hck]
    refine ⟨?_, ?_⟩
    · split_ifs <;> simp [ArgKind.place]
    · rintro s' ⟨⟩
      refine ⟨rfl, rfl, ?_⟩
      rw [ArgKind.place, UInt32.ofNat_add, UInt32.ofNat_toNat]
      rfl
  · intro h
    rw [ArgKind.place, UInt32.ofNat_toNat] at h
    have hck : checkVaArg e s.ap 4 = false := h
    simp only [hck, Bool.false_eq_true, if_false]

theorem takesArg_strCase : TakesArg e (strCase env e s t) s t .string := by
  unfold strCase
  constructor
  · intro h
    rw [ArgKind.place, UInt32.ofNat_toNat] at h
    have hck : checkVaArg e s.ap 4 = true := h
    simp only [hck, if_true]
    have hend : s.ap + 4 = UInt32.ofNat (s.ap.toNat + 4) := by
      rw [UInt32.ofNat_add, UInt32.ofNat_toNat]
      rfl
    by_cases hv : env.validateAppStrAddr (env.mem s.ap) = true
    · rw [if_pos hv]
      obtain ⟨s', hr, hm, hl, ha, hf⟩ := @fetches_strOutput env { s.leave with ap := s.ap + 4 } t (env.mem s.ap)
      refine ⟨by simp [hf, ArgKind.place], fun s'' hs => ?_⟩
      cases hr.symm.trans hs
      exact ⟨hm, hl, ha.trans hend⟩
    · rw [if_neg hv]
      refine ⟨by simp [ArgKind.place], ?_⟩
      rintro s' ⟨⟩
  · intro h
    rw [ArgKind.place, UInt32.ofNat_toNat] at h
    have hck : checkVaArg e s.ap 4 = false := h
    simp only [hck, Bool.false_eq_true, if_false]

theorem ConversionCase.takesArg {rest : PrintfState → TempFormat → PrintfStep}
    (h : ConversionCase env e s.longCtr rest k) (t : TempFormat) : TakesArg e (rest s t) s t k := by
  cases h with
  | word hl => exact takesArg_intCase_word hl
  | long hl =>
    unfold intCase
    rw [if_neg hl]
    exact takesArg_wideCase _
  | float => exact takesArg_wideCase _
  | str => exact takesArg_strCase

/-- The step of a directive that takes an argument: it has passed the check and has fetched the argument, or ended the
run with the exception. -/
theorem takes_step (h : s.takes env c = some k) :
    (checkVaArg e (UInt32.ofNat (k.place s.ap.toNat)) (UInt32.ofNat k.width) = true →
      StepFetches env e s c [(k, UInt32.ofNat (k.place s.ap.toNat))]
        (UInt32.ofNat (k.place s.ap.toNat + k.width))) ∧
    (checkVaArg e (UInt32.ofNat (k.place s.ap.toNat)) (UInt32.ofNat k.width) = false →
      fetches (vprintfStep env e s c).1 = [] ∧ .exception ∈ (vprintfStep env e s c).1 ∧
        (vprintfStep env e s c).2 = .error .outOfBounds) := by
  unfold PrintfState.takes at h
  split_ifs at h with hs
  obtain ⟨hafter, ⟨hn, -⟩ | ⟨-, rest, hstep, hcase⟩⟩ := @conversion_cases env e s c k h
  · exact absurd (.inl hn) hs
  obtain ⟨pre, s', t, hprep, hpre, hl, ha⟩ := withTempFormat_prepared (c := c) rest fun hb => hs (.inr hb)
  rw [← hl] at hcase
  obtain ⟨hpassed, hfailed⟩ := hcase.takesArg t
  rw [ha] at hpassed hfailed
  rw [hprep] at hstep
  constructor
  · intro hck
    obtain ⟨hf, hgo⟩ := hpassed hck
    constructor
    · rw [hstep, fetches_append, hpre, hf]
      rfl
    · intro s'' hs'
      rw [hstep] at hs'
      obtain ⟨hm, hl', ha'⟩ := hgo s'' hs'
      exact ⟨by rw [hafter, hm, hl', hl], ha'⟩
  · intro hck
    rw [hstep, hfailed hck]
    exact ⟨by simp [TempFormat.fail, hpre], by simp [TempFormat.fail], rfl⟩

/-! ## Buffers -/

theorem lt_fmtBufLen (n : ℕ) : n + 1 < fmtBufLen n := by
  unfold fmtBufLen
  split_ifs <;> omega

@[simp]
theorem fitsBuffer_out (len : ℕ) (c : Char) : (PrintfEvent.out c).FitsBuffer len := trivial

@[simp]
theorem fitsBuffer_free (len id : ℕ) : (PrintfEvent.free id).FitsBuffer len := trivial

/-- Events that do not leave a `fmt_buf` of `len` characters. -/
def FitBuffer (len : ℕ) (evs : List PrintfEvent) : Prop := ∀ ev ∈ evs, ev.FitsBuffer len

variable {len : ℕ} {evs : List PrintfEvent} {buf : List Char}

theorem fitBuffer_release : FitBuffer len t.release := by
  unfold TempFormat.release
  cases t.heap <;> simp [FitBuffer]

theorem fitBuffer_fail : FitBuffer len t.fail.1 := by
  intro ev hev
  rcases List.mem_append.1 hev with hev | hev
  · exact fitBuffer_release ev hev
  · rw [List.mem_singleton.1 hev]
    trivial

theorem fitBuffer_printErr : FitBuffer len printErr := by simp [FitBuffer, printErr]

theorem fitBuffer_outputTempFormat {size : ℕ} {arg : PrintfArg} (hlen : buf.length = len) (hnul : nul ∈ buf) :
    FitBuffer len (outputTempFormat env t size buf arg) := by
  intro ev hev
  unfold outputTempFormat at hev
  rcases List.mem_append.1 hev with hev | hev
  · rcases List.mem_cons.1 hev with rfl | hev
    · exact ⟨hlen, hnul⟩
    · obtain ⟨c, -, rfl⟩ := List.mem_map.1 hev
      trivial
  · exact fitBuffer_release ev hev

/-- The removal of a modifier writes two characters of the buffer, and a null character to the second. -/
theorem removeModifier_fits {i : ℕ} (hlen : buf.length = len) (hnul : nul ∈ buf) (hi : i < len) :
    (removeModifier buf i).1.length = len ∧ nul ∈ (removeModifier buf i).1 ∧ FitBuffer len (removeModifier buf i).2 := by
  unfold removeModifier
  simp only
  split_ifs
  · refine ⟨by simp [hlen], List.mem_set (by simpa [hlen] using hi) _, ?_⟩
    intro ev hev
    rw [List.mem_cons, List.mem_singleton] at hev
    rcases hev with rfl | rfl
    · exact ⟨hlen, Nat.lt_of_le_of_lt (Nat.sub_le i 1) hi⟩
    · exact ⟨hlen, hi⟩
  · exact ⟨hlen, hnul, fun ev hev => by cases hev⟩

theorem FitBuffer.append {evs' : List PrintfEvent} (h : FitBuffer len evs) (h' : FitBuffer len evs') :
    FitBuffer len (evs ++ evs') := fun ev hev => (List.mem_append.1 hev).elim (h ev) (h' ev)

theorem FitBuffer.cons {ev : PrintfEvent} (hev : ev.FitsBuffer len) (h : FitBuffer len evs) :
    FitBuffer len (ev :: evs) := List.forall_mem_cons.2 ⟨hev, h⟩

/-- The buffer of a directive of `n` characters and its conversion. -/
structure TempFormat.Prepared (t : TempFormat) (n : ℕ) : Prop where
  length : t.buf.length = fmtBufLen n
  nul_mem : nul ∈ t.buf

variable {n : ℕ}

theorem fitBuffer_wideCase (h : t.Prepared n) (arg : UInt64 → PrintfArg) :
    FitBuffer (fmtBufLen n) (wideCase env e s t arg).1 := by
  unfold wideCase
  simp only
  split_ifs
  · exact .cons trivial (fitBuffer_outputTempFormat h.length h.nul_mem)
  · exact fitBuffer_fail

theorem fitBuffer_intCase (h : t.Prepared s.directive.length) :
    FitBuffer (fmtBufLen s.directive.length) (intCase env e s t).1 := by
  unfold intCase
  split_ifs with hl hck h1
  · have hi : s.directive.length < fmtBufLen s.directive.length :=
      Nat.lt_of_succ_lt (lt_fmtBufLen s.directive.length)
    obtain ⟨hlen, hnul, hws⟩ := removeModifier_fits h.length h.nul_mem hi
    exact .cons trivial (hws.append (fitBuffer_outputTempFormat hlen hnul))
  · exact .cons trivial (.append (fun ev hev => by cases hev) (fitBuffer_outputTempFormat h.length h.nul_mem))
  · exact fitBuffer_fail
  · exact fitBuffer_wideCase h _

theorem fitBuffer_strOutput (h : t.Prepared n) (p : Addr) : FitBuffer (fmtBufLen n) (strOutput env s t p).1 := by
  unfold strOutput
  simp only
  generalize PrintfArg.str _ = arg
  split_ifs
  · exact fitBuffer_printErr.append fitBuffer_release
  · refine .append (.cons trivial (fitBuffer_outputTempFormat h.length h.nul_mem)) fun ev hev => ?_
    rw [List.mem_singleton.1 hev]
    trivial
  · exact .append (.cons trivial fitBuffer_printErr) fitBuffer_release
  · exact fitBuffer_outputTempFormat h.length h.nul_mem

theorem fitBuffer_strCase (h : t.Prepared n) : FitBuffer (fmtBufLen n) (strCase env e s t).1 := by
  unfold strCase
  simp only
  split_ifs
  · exact .cons trivial (fitBuffer_strOutput h _)
  · exact .cons trivial fitBuffer_release
  · exact fitBuffer_fail

/-- The text of a directive leaves room for a null character in its buffer. -/
theorem prepared_rightpad (directive : List Char) (c : Char) (heap : Option ℕ) :
    TempFormat.Prepared ⟨(directive ++ [c]).rightpad (fmtBufLen directive.length) nul, heap⟩ directive.length := by
  have hlt := lt_fmtBufLen directive.length
  refine ⟨?_, ?_⟩
  · simp only [List.rightpad, List.length_append, List.length_replicate, List.length_singleton]
    omega
  · refine List.mem_append_right _ (List.mem_replicate.2 ⟨?_, rfl⟩)
    rw [List.length_append, List.length_singleton]
    omega

theorem fitBuffer_withTempFormat {rest : PrintfState → TempFormat → PrintfStep}
    (h : ∀ s' t, s'.directive = s.directive → t.Prepared s.directive.length →
      FitBuffer (fmtBufLen s.directive.length) (rest s' t).1) :
    FitBuffer (fmtBufLen s.directive.length) (withTempFormat env s c rest).1 := by
  have hcopy := lt_fmtBufLen s.directive.length
  have hprep := prepared_rightpad s.directive c
  unfold withTempFormat prepareTempFormat
  simp only
  by_cases hlong : 32 ≤ s.directive.length + 2
  · have hlen : fmtBufLen s.directive.length = s.directive.length + 2 := if_pos hlong
    rw [hlen] at hprep
    rw [if_pos hlong]
    cases env.mallocOk s.mallocs with
    | true =>
      simp only [if_true]
      exact .append (.cons trivial (.cons ⟨hlen.symm, hcopy⟩ fun ev hev => by cases hev)) (h _ _ rfl (hprep _))
    | false => exact .cons trivial fitBuffer_printErr
  · have hlen : fmtBufLen s.directive.length = 32 := if_neg hlong
    rw [hlen] at hprep
    rw [if_neg hlong]
    exact .append (.cons ⟨hlen.symm, hcopy⟩ fun ev hev => by cases hev) (h _ _ rfl (hprep _))

/-- Whatever a character of the format does, its accesses to `fmt_buf` are inside it. -/
theorem fitBuffer_vprintfStep : FitBuffer (fmtBufLen s.directive.length) (vprintfStep env e s c).1 := by
  cases hm : s.mightFormat with
  | false =>
    by_cases hc : c = '%'
    · rw [hc, vprintfStep_percent hm]
      exact fun ev hev => by cases hev
    · rw [vprintfStep_literal hm hc]
      exact .cons trivial fun ev hev => by cases hev
  | true =>
    rw [vprintfStep_directive hm]
    cases charClass c with
    | flag | half | size | max | long => exact fun ev hev => by cases hev
    | int =>
      refine fitBuffer_withTempFormat fun s' t hd ht => ?_
      rw [← hd] at ht ⊢
      exact fitBuffer_intCase ht
    | float => exact fitBuffer_withTempFormat fun s' t _ ht => fitBuffer_wideCase ht _
    | str => exact fitBuffer_withTempFormat fun s' t _ ht => fitBuffer_strCase ht
    | other =>
      simp only
      split_ifs
      · exact .cons trivial fun ev hev => by cases hev
      · exact fun ev hev => by cases hev
      · exact .cons trivial (.cons trivial fun ev hev => by cases hev)

/-! ## The loop -/

/-- The cursor is between `ap` and `e`, and a directive has its `%`. -/
structure CursorInside (e ap : Addr) (s : PrintfState) : Prop where
  le : ap.toNat ≤ s.ap.toNat
  le_end : s.ap.toNat ≤ e.toNat
  directive : s.mightFormat = true → s.directive ≠ []

theorem loopStep_eq_some : loopStep env e s c = some s' ↔ (vprintfStep env e s c).2 = .ok s' := by
  unfold loopStep
  cases (vprintfStep env e s c).2 <;> simp

/-- A character that takes no argument reads nothing and leaves the cursor. -/
theorem stepFetches_of_takes_none (h : s.takes env c = none) : StepFetches env e s c [] s.ap := by
  unfold PrintfState.takes at h
  cases hc : s.consumes c with
  | none => exact stepFetches_none hc
  | some k =>
    rw [hc] at h
    split_ifs at h with hs
    exact stepFetches_skips hc hs

/-- A step that goes on, whether it takes an argument or not. -/
theorem step_after (hs : (vprintfStep env e s c).2 = .ok s') : (s'.mightFormat, s'.longCtr) = s.after c := by
  cases ht : s.takes env c with
  | none => exact ((stepFetches_of_takes_none ht).goesOn s' hs).1
  | some k =>
    obtain ⟨hpassed, hfailed⟩ := takes_step (e := e) ht
    cases hck : checkVaArg e (UInt32.ofNat (k.place s.ap.toNat)) (UInt32.ofNat k.width) with
    | true => exact ((hpassed hck).goesOn s' hs).1
    | false =>
      rw [(hfailed hck).2.2] at hs
      cases hs

/-- Inside a directive its text is not empty. -/
theorem directive_ne_nil (h : s.mightFormat = true → s.directive ≠ [])
    (hs : (vprintfStep env e s c).2 = .ok s') (hm' : s'.mightFormat = true) : s'.directive ≠ [] := by
  have hafter := step_after hs
  cases hm : s.mightFormat with
  | false =>
    by_cases hc : c = '%'
    · rw [hc, vprintfStep_percent hm] at hs
      cases hs
      simp
    · rw [vprintfStep_literal hm hc] at hs
      cases hs
      exact h hm'
  | true =>
    rw [vprintfStep_directive hm] at hs
    unfold PrintfState.after at hafter
    rw [hm, hm'] at hafter
    cases hc : charClass c with
    | flag | half | size | max | long =>
      rw [hc] at hs
      cases hs
      simp
    | int | float | str | other =>
      rw [hc] at hafter
      simp at hafter

theorem place_le_add (k : ArgKind) (p : ℕ) : k.place p ≤ p + 7 := by
  cases k with
  | word | string => exact Nat.le_add_right p 7
  | wide =>
    rw [ArgKind.place, align8]
    omega

/-- A step is in bounds exactly when the argument it takes, if any, ends at an address. -/
theorem stepInBounds_iff (hi : CursorInside e ap s) (hap : 0 < ap.toNat) :
    StepInBounds env e ap s c ↔ ArgumentFits env s c := by
  have hlt := e.toNat_lt
  have hend := hi.le_end
  have hle := hi.le
  constructor
  · intro h k hk
    by_contra hwrap
    -- the end wraps, so the check passes and the argument is fetched
    have hplace := place_le k s.ap
    have hnear := place_le_add k s.ap.toNat
    have hwidth := width_le k
    have hck : checkVaArg e (UInt32.ofNat (k.place s.ap.toNat)) (UInt32.ofNat k.width) = true :=
      checkVaArg_of_wraps hplace (by omega) (by omega)
    have hread := h.reads
    rw [((takes_step hk).1 hck).fetches] at hread
    have hbad := hread _ (List.mem_singleton_self _)
    simp only [UInt32.toNat_ofNat'] at hbad
    omega
  · intro hok
    cases ht : s.takes env c with
    | none =>
      refine ⟨?_, fun k hk => ?_, hi.directive, fitBuffer_vprintfStep⟩
      · rw [(stepFetches_of_takes_none ht).fetches]
        exact fun a ha => by cases ha
      · rw [ht] at hk
        cases hk
    | some k =>
      have hfits := hok k ht
      have hplace := le_place (k := k) (p := s.ap.toNat)
      have hto : (UInt32.ofNat (k.place s.ap.toNat)).toNat = k.place s.ap.toNat :=
        UInt32.toNat_ofNat_of_lt' (Nat.lt_of_le_of_lt (Nat.le_add_right _ _) hfits)
      obtain ⟨hpassed, hfailed⟩ := takes_step (e := e) ht
      cases hck : checkVaArg e (UInt32.ofNat (k.place s.ap.toNat)) (UInt32.ofNat k.width) with
      | true =>
        have hin := (checkVaArg_iff hfits).1 hck
        -- the end is as it was computed, and at most `e`
        refine ⟨?_, fun k' hk hout => ?_, hi.directive, fitBuffer_vprintfStep⟩
        · rw [(hpassed hck).fetches]
          intro a ha
          rw [List.mem_singleton.1 ha]
          simp only [hto]
          omega
        · cases ht.symm.trans hk
          omega
      | false =>
        obtain ⟨hnone, hexc, hstop⟩ := hfailed hck
        refine ⟨?_, fun _ _ _ => ⟨hexc, hstop⟩, hi.directive, fitBuffer_vprintfStep⟩
        rw [hnone]
        exact fun a ha => by cases ha

theorem cursorInside_step (hi : CursorInside e ap s) (hok : ArgumentFits env s c)
    (hs : loopStep env e s c = some s') : CursorInside e ap s' := by
  rw [loopStep_eq_some] at hs
  have hdirective := directive_ne_nil hi.directive hs
  cases ht : s.takes env c with
  | none =>
    have hap := ((stepFetches_of_takes_none ht).goesOn s' hs).2
    exact ⟨hap ▸ hi.le, hap ▸ hi.le_end, hdirective⟩
  | some k =>
    obtain ⟨hpassed, hfailed⟩ := takes_step (e := e) ht
    have hfits := hok k ht
    cases hck : checkVaArg e (UInt32.ofNat (k.place s.ap.toNat)) (UInt32.ofNat k.width) with
    | true =>
      have hend := (checkVaArg_iff hfits).1 hck
      have hap := ((hpassed hck).goesOn s' hs).2
      have hle := le_place (k := k) (p := s.ap.toNat)
      have hto : s'.ap.toNat = k.place s.ap.toNat + k.width := by
        rw [hap]
        exact UInt32.toNat_ofNat_of_lt' hfits
      have := hi.le
      exact ⟨by omega, by omega, hdirective⟩
    | false =>
      rw [(hfailed hck).2.2] at hs
      cases hs

/-- What a run in bounds reads. -/
theorem reads_of_meets {fmt : List Char} (h : Meets (loopStep env e) (StepInBounds env e ap) s fmt) :
    ∀ a ∈ fetches (vprintfLoop env e s fmt).1, ap.toNat ≤ a.2.toNat ∧ a.2.toNat + a.1.width ≤ e.toNat := by
  induction fmt generalizing s with
  | nil => exact fun a ha => by cases ha
  | cons c fmt ih =>
    obtain ⟨hstep, hrest⟩ := h
    have hreads := hstep.reads
    intro a ha
    unfold vprintfLoop at ha
    unfold loopStep at hrest
    cases hr : vprintfStep env e s c with
    | mk evs r =>
      rw [hr] at ha hreads hrest
      cases r with
      | error r =>
        -- the run ends here
        exact hreads a ha
      | ok s' =>
        rw [fetches_append] at ha
        exact (List.mem_append.1 ha).elim (hreads a) (ih hrest a)

/-- The arguments fit in every run in a memory that ends 16 bytes in front of the end of the address space, or
earlier. -/
theorem argumentFits_of_end (hend : e.toNat + 16 ≤ 2 ^ 32) (hi : CursorInside e ap s) (format : List Char) :
    Meets (loopStep env e) (ArgumentFits env) s format := by
  have hfits : ∀ s c, CursorInside e ap s → ArgumentFits env s c := by
    intro s c hi k _
    have := hi.le_end
    cases k with
    | word | string =>
      rw [ArgKind.place, ArgKind.width]
      omega
    | wide =>
      rw [ArgKind.place, ArgKind.width, align8]
      omega
  have hiff : Meets (loopStep env e) (fun _ _ => True) s format ↔
      Meets (loopStep env e) (ArgumentFits env) s format :=
    meets_iff (I := CursorInside e ap) (fun s c hi => iff_of_true trivial (hfits s c hi))
      (fun s c t hi _ hs => cursorInside_step hi (hfits s c hi) hs) hi format
  exact hiff.1 (meets_true s format)

/-- With the arguments in a linear memory, a call stays in bounds exactly when every argument that a directive takes
ends at an address, which each does unless the memory ends in the last 16 bytes of the address space. -/
theorem vprintfWa_inBounds_iff {start : Addr} {format : List Char} (he : env.nativeEndAddr = some e)
    (hm : InMemory start e ap) :
    (InBounds env e format ap ↔ Meets (loopStep env e) (ArgumentFits env) (.start ap) format) ∧
      (e.toNat + 16 ≤ 2 ^ 32 → InBounds env e format ap) := by
  have hstart : 0 < start.toNat := Nat.pos_of_ne_zero fun h0 => hm.start_ne (UInt32.toNat_inj.1 h0)
  have hle := UInt32.le_iff_toNat_le.1 hm.le
  have hlt := UInt32.lt_iff_toNat_lt.1 hm.lt
  have hi : CursorInside e ap (.start ap) := ⟨Nat.le_refl _, hlt.le, fun h => by cases h⟩
  have hsteps : Meets (loopStep env e) (StepInBounds env e ap) (.start ap) format ↔
      Meets (loopStep env e) (ArgumentFits env) (.start ap) format :=
    meets_iff (I := CursorInside e ap) (fun s c hi => stepInBounds_iff hi (by omega))
      (fun s c t hi hok hs => cursorInside_step hi ((stepInBounds_iff hi (by omega)).1 hok) hs) hi format
  have hbounds : InBounds env e format ap ↔ Meets (loopStep env e) (ArgumentFits env) (.start ap) format := by
    constructor
    · intro h
      exact hsteps.1 h.steps
    · intro h
      have hmeets := hsteps.2 h
      refine ⟨?_, hmeets⟩
      rw [vprintfWa, he]
      exact reads_of_meets hmeets
  exact ⟨hbounds, fun hend => hbounds.2 (argumentFits_of_end hend hi format)⟩

/-- A `long long` that is aligned up to the last 8 bytes of the memory, and a `double` behind it, which ends the call
with the exception. -/
theorem vprintfWa_inBounds_stopped :
    InBounds (walkerEnv []) 0x3000 "%-5lld|%f".toList 0x2ff4 := by
  have hm : InMemory 0x1000 0x3000 0x2ff4 := ⟨by decide, by decide, by decide⟩
  exact (vprintfWa_inBounds_iff rfl hm).1.2 (by decide)

/-- An environment with a linear memory that ends 8 bytes in front of the end of the address space. -/
def topEnv : PrintfEnv := { walkerEnv [] with nativeEndAddr := some 0xfffffff8 }

/-- The last word of such a memory, taken for a `long long`: the argument is behind the memory. -/
theorem topEnv_not_inBounds :
    ¬ ∀ (env : PrintfEnv) (start e ap : Addr) (format : List Char), env.nativeEndAddr = some e →
      InMemory start e ap → InBounds env e format ap := by
  intro h
  have hbounds := h topEnv 0xffff0000 0xfffffff8 0xfffffff4 "%lld".toList rfl ⟨by decide, by decide, by decide⟩
  have hread := hbounds.reads (.wide, 0xfffffff8) (by decide)
  exact absurd hread.2 (by decide)

end VelaWasm.LibcBypass
