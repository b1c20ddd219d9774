/-
The cursor of `_vprintf_wa` in its argument area. A directive that gets no buffer for its text, and `%n`, leave the
argument that was passed for it where it is, and the directives behind it fetch one place too early; only the padding
in front of an 8-byte argument can make up for that.
-/
import VelaWasm.LibcBypass.Walkers

namespace VelaWasm.LibcBypass

/-! ## Arguments and fetches -/

/-- The arguments that the caller passes for a format, as `argKinds`, with one for `%n`. -/
def passedKinds : (might : Bool) → (longCtr : Nat) → List Char → List ArgKind
  | _, _, [] => []
  | false, longCtr, c :: fmt => if c = '%' then passedKinds true 0 fmt else passedKinds false longCtr fmt
  | true, longCtr, c :: fmt =>
    match charClass c with
    | .flag | .half => passedKinds true longCtr fmt
    | .size => passedKinds true 1 fmt
    | .max => passedKinds true 2 fmt
    | .long => passedKinds true (longCtr + 1) fmt
    | .int => (if longCtr < 2 then .word else .wide) :: passedKinds false longCtr fmt
    | .float => .wide :: passedKinds false longCtr fmt
    | .str => .string :: passedKinds false longCtr fmt
    | .other => if c = 'n' then .word :: passedKinds false longCtr fmt else passedKinds false longCtr fmt

/-- Where the arguments `ks` stand from `p` on. -/
def layout (p : ℕ) (ks : List ArgKind) : List (ArgKind × Addr) :=
  (alignedArgs p ks).map fun a => (a.1, UInt32.ofNat a.2)

/-- The argument that the character `c` consumes. -/
def PrintfState.consumes (s : PrintfState) (c : Char) : Option ArgKind :=
  if s.mightFormat then
    match charClass c with
    | .int => some (if s.longCtr < 2 then .word else .wide)
    | .float => some .wide
    | .str => some .string
    | .other => if c = 'n' then some .word else none
    | .flag | .half | .size | .max | .long => none
  else none

section

variable (env : PrintfEnv) (e : Addr)

/-- What each directive that consumes an argument fetches. -/
def directiveFetches : PrintfState → List Char → List (List (ArgKind × Addr))
  | _, [] => []
  | s, c :: fmt =>
    let rest := match (vprintfStep env e s c).2 with
      | .error _ => []
      | .ok s => directiveFetches s fmt
    if (s.consumes c).isSome then fetches (vprintfStep env e s c).1 :: rest else rest

/-- Whatever the `k`-th directive fetches is the `k`-th argument. -/
def Matches (l : List (List (ArgKind × Addr))) (args : List (ArgKind × Addr)) : Prop :=
  ∀ x ∈ l.zip args, ∀ f ∈ x.1, f = x.2

/-- The state in which `_vprintf_wa` starts. -/
def PrintfState.start (ap : Addr) : PrintfState := ⟨false, 0, [], ap, 0⟩

/-- `_vprintf_wa` fetches from the area at `ap` what the caller passed there. -/
def FetchesInOrder (format : List Char) (ap : Addr) : Prop :=
  ∀ e ∈ env.nativeEndAddr,
    Matches (directiveFetches env e (.start ap) format) (layout ap.toNat (passedKinds false 0 format))

/-! ## The condition -/

/-- The cursor is where the next argument is, or will be there for an 8-byte argument, or not any more. -/
inductive CursorAt where
  | argument | padding | behind
  deriving DecidableEq, Repr

/-- An argument of kind `k` is left at `ap`. -/
def CursorAt.skip (k : ArgKind) (ap : Addr) : CursorAt → CursorAt
  | argument => if k ≠ .wide ∧ ap.toNat % 8 = 4 then padding else behind
  | padding | behind => behind

/-- An argument of kind `k` can be fetched. -/
def CursorAt.Admits (k : ArgKind) : CursorAt → Prop
  | argument => True
  | padding => k = .wide
  | behind => False

instance (k : ArgKind) : DecidablePred (CursorAt.Admits k)
  | .argument => isTrue trivial
  | .padding => inferInstanceAs (Decidable (_ = _))
  | .behind => isFalse id

/-- The directive that ends with `c` leaves its argument where it is. -/
def PrintfState.Skips (s : PrintfState) (c : Char) : Prop :=
  c = 'n' ∨ 32 ≤ s.directive.length + 2 ∧ env.mallocOk s.mallocs = false

instance (s : PrintfState) (c : Char) : Decidable (s.Skips env c) := inferInstanceAs (Decidable (_ ∨ _))

/-- In the run every argument that is fetched can be. -/
def CursorKept : CursorAt → PrintfState → List Char → Prop
  | _, _, [] => True
  | at_, s, c :: fmt =>
    let next (at_ : CursorAt) := match (vprintfStep env e s c).2 with
      | .error _ => True
      | .ok s => CursorKept at_ s fmt
    match s.consumes c with
    | none => next at_
    | some k => if s.Skips env c then next (at_.skip k s.ap) else at_.Admits k ∧ next .argument

end

/-! ## One character -/

/-- `might_format` and `long_ctr` after a character. -/
def PrintfState.after (s : PrintfState) (c : Char) : Bool × ℕ :=
  if s.mightFormat then
    match charClass c with
    | .flag | .half => (true, s.longCtr)
    | .size => (true, 1)
    | .max => (true, 2)
    | .long => (true, s.longCtr + 1)
    | .int | .float | .str | .other => (false, s.longCtr)
  else if c = '%' then (true, 0) else (false, s.longCtr)

/-- A step fetches `l` and, if the loop goes on, leaves the cursor at `ap`. -/
structure StepFetches (env : PrintfEnv) (e : Addr) (s : PrintfState) (c : Char) (l : List (ArgKind × Addr))
    (ap : Addr) : Prop where
  fetches : fetches (vprintfStep env e s c).1 = l
  goesOn : ∀ s', (vprintfStep env e s c).2 = .ok s' → (s'.mightFormat, s'.longCtr) = s.after c ∧ s'.ap = ap

variable {env : PrintfEnv} {e : Addr} {s : PrintfState} {c : Char} {k : ArgKind} {p q : ℕ}

theorem passedKinds_cons (fmt : List Char) : passedKinds s.mightFormat s.longCtr (c :: fmt) =
    (s.consumes c).toList ++ passedKinds (s.after c).1 (s.after c).2 fmt := by
  unfold PrintfState.consumes PrintfState.after
  cases s.mightFormat with
  | false =>
    simp only [Bool.false_eq_true, if_false, passedKinds]
    split_ifs <;> rfl
  | true =>
    simp only [if_true, passedKinds]
    cases charClass c with
    | other =>
      simp only
      split_ifs <;> rfl
    | _ => rfl

/-- A directive without a buffer. -/
theorem withTempFormat_skips (rest : PrintfState → TempFormat → PrintfStep)
    (h : 32 ≤ s.directive.length + 2 ∧ env.mallocOk s.mallocs = false) :
    fetches (withTempFormat env s c rest).1 = [] ∧
      ∃ s', (withTempFormat env s c rest).2 = .ok s' ∧ s'.mightFormat = false ∧ s'.longCtr = s.longCtr ∧
        s'.ap = s.ap := by
  have hprep : prepareTempFormat env s c =
      (.malloc s.mallocs (s.directive.length + 2) false :: printErr, { s with mallocs := s.mallocs + 1 }, none) := by
    unfold prepareTempFormat
    simp only [if_pos h.1, h.2, Bool.false_eq_true, if_false]
  unfold withTempFormat
  rw [hprep]
  exact ⟨by simp, _, rfl, rfl, rfl, rfl⟩

/-- A directive with a buffer. -/
theorem withTempFormat_prepared (rest : PrintfState → TempFormat → PrintfStep)
    (h : ¬ (32 ≤ s.directive.length + 2 ∧ env.mallocOk s.mallocs = false)) :
    ∃ pre s' t, withTempFormat env s c rest = (pre ++ (rest s' t).1, (rest s' t).2) ∧ fetches pre = [] ∧
      s'.longCtr = s.longCtr ∧ s'.ap = s.ap := by
  have hprep : ∃ pre s' t, prepareTempFormat env s c = (pre, s', some t) ∧ fetches pre = [] ∧
      s'.longCtr = s.longCtr ∧ s'.ap = s.ap := by
    unfold prepareTempFormat
    by_cases hlen : 32 ≤ s.directive.length + 2
    · have hok : env.mallocOk s.mallocs = true := by
        rw [← Bool.not_eq_false]
        exact fun hn => h ⟨hlen, hn⟩
      simp only [if_pos hlen, if_pos hok]
      exact ⟨_, _, _, rfl, rfl, rfl, rfl⟩
    · simp only [if_neg hlen]
      exact ⟨_, _, _, rfl, rfl, rfl, rfl⟩
  obtain ⟨pre, s', t, hprep, hpre, hl, ha⟩ := hprep
  refine ⟨pre, s', t, ?_, hpre, hl, ha⟩
  unfold withTempFormat
  rw [hprep]

/-- A character that consumes nothing. -/
theorem stepFetches_none (h : s.consumes c = none) : StepFetches env e s c [] s.ap := by
  unfold PrintfState.consumes at h
  cases hm : s.mightFormat with
  | false =>
    by_cases hc : c = '%'
    · subst hc
      constructor
      · rw [vprintfStep_percent hm]
        rfl
      · intro s' hs'
        rw [vprintfStep_percent hm] at hs'
        cases hs'
        simp [PrintfState.after, hm]
    · constructor
      · rw [vprintfStep_literal hm hc]
        rfl
      · intro s' hs'
        rw [vprintfStep_literal hm hc] at hs'
        cases hs'
        simp [PrintfState.after, hm, hc]
  | true =>
    rw [hm] at h
    cases hc : charClass c with
    | flag | half | size | max | long =>
      constructor
      · rw [vprintfStep_directive hm, hc]
        rfl
      · intro s' hs'
        rw [vprintfStep_directive hm, hc] at hs'
        cases hs'
        simp [PrintfState.after, hm, hc]
    | int | float | str =>
      rw [hc] at h
      cases h
    | other =>
      constructor
      · rw [vprintfStep_directive hm, hc]
        simp only
        split_ifs <;> rfl
      · intro s' hs'
        rw [vprintfStep_directive hm, hc] at hs'
        simp only at hs'
        split_ifs at hs' <;> (cases hs'; simp [PrintfState.after, hm, hc, PrintfState.leave])

/-- Where an argument of kind `k` is fetched with the cursor at `p`. -/
def ArgKind.place (p : ℕ) : ArgKind → ℕ
  | word | string => p
  | wide => align8 p

def ArgKind.width : ArgKind → ℕ
  | word | string => 4
  | wide => 8

theorem layout_cons (ks : List ArgKind) :
    layout p (k :: ks) = (k, UInt32.ofNat (k.place p)) :: layout (k.place p + k.width) ks := by
  cases k <;> rfl

theorem areaEnd_cons (ks : List ArgKind) : areaEnd p (k :: ks) = areaEnd (k.place p + k.width) ks := by
  cases k <;> rfl

theorem le_place : p ≤ k.place p := by
  cases k with
  | word | string => exact Nat.le_refl p
  | wide => exact le_align8 p

/-- What is left of a conversion once it has its buffer: it fetches its argument and goes on behind it. -/
def FetchesArg (r : PrintfStep) (s : PrintfState) (k : ArgKind) (p : ℕ) : Prop :=
  fetches r.1 = [(k, UInt32.ofNat (k.place p))] ∧
    ∀ s', r.2 = .ok s' →
      s'.mightFormat = false ∧ s'.longCtr = s.longCtr ∧ s'.ap = UInt32.ofNat (k.place p + k.width)

theorem Fetches.fetchesArg {r : PrintfStep}
    (h : Fetches r s [(k, UInt32.ofNat (k.place p))] (k.place p + k.width)) : FetchesArg r s k p := by
  obtain ⟨s', hr, hm, hl, ha, hf⟩ := h
  refine ⟨hf, fun s'' hs => ?_⟩
  rw [hr] at hs
  cases hs
  exact ⟨hm, hl, ha⟩

theorem fetchesArg_strCase (t : TempFormat) (hp : s.ap = UInt32.ofNat p) (h : p + 4 ≤ e.toNat) :
    FetchesArg (strCase env e s t) s .string p := by
  by_cases hv : env.validateAppStrAddr (env.mem (UInt32.ofNat p)) = true
  · exact (fetches_strCase t hp h hv).fetchesArg
  · have hck : checkVaArg e (UInt32.ofNat p) 4 = true := checkVaArg_of_le h
    have hcase : strCase env e s t = (.fetch .string (UInt32.ofNat p) :: t.release, .error .invalidString) := by
      unfold strCase
      simp only [hp, hck, if_true, if_neg hv]
    rw [hcase]
    exact ⟨by simp [ArgKind.place], fun s' hs => by cases hs⟩

/-- A directive that consumes an argument of kind `k`: it is `%n`, or takes a buffer and then fetches. -/
inductive ConversionStep (env : PrintfEnv) (e : Addr) (s : PrintfState) (c : Char) (k : ArgKind) : Prop
  | ignored (hc : c = 'n') (h : vprintfStep env e s c = ([], .ok s.leave))
  | buffered (hc : c ≠ 'n') (rest : PrintfState → TempFormat → PrintfStep)
      (h : vprintfStep env e s c = withTempFormat env s c rest)
      (hrest : ∀ s' t p, s'.longCtr = s.longCtr → s'.ap = UInt32.ofNat p → k.place p + k.width ≤ e.toNat →
        FetchesArg (rest s' t) s' k p)

theorem ne_n_of_charClass (h : charClass c ≠ .other) : c ≠ 'n' := by
  rintro rfl
  exact h rfl

/-- The case of a conversion that takes an argument of kind `k`, with `long_ctr` at `l`. -/
inductive ConversionCase (env : PrintfEnv) (e : Addr) (l : ℕ) :
    (PrintfState → TempFormat → PrintfStep) → ArgKind → Prop
  | word (h : l < 2) : ConversionCase env e l (intCase env e) .word
  | long (h : ¬ l < 2) : ConversionCase env e l (intCase env e) .wide
  | float : ConversionCase env e l (floatCase env e) .wide
  | str : ConversionCase env e l (strCase env e) .string

theorem conversion_cases (h : s.consumes c = some k) :
    s.after c = (false, s.longCtr) ∧
      (c = 'n' ∧ vprintfStep env e s c = ([], .ok s.leave) ∨
        c ≠ 'n' ∧ ∃ rest, vprintfStep env e s c = withTempFormat env s c rest ∧
          ConversionCase env e s.longCtr rest k) := by
  unfold PrintfState.consumes at h
  cases hm : s.mightFormat with
  | false =>
    rw [hm] at h
    cases h
  | true =>
    rw [hm] at h
    simp only [if_true] at h
    cases hc : charClass c with
    | flag | half | size | max | long =>
      rw [hc] at h
      cases h
    | int =>
      rw [hc] at h
      have hcase : ConversionCase env e s.longCtr (intCase env e) k := by
        by_cases hlt : s.longCtr < 2
        · simp only [if_pos hlt, Option.some.injEq] at h
          exact h ▸ .word hlt
        · simp only [if_neg hlt, Option.some.injEq] at h
          exact h ▸ .long hlt
      exact ⟨by simp [PrintfState.after, hm, hc],
        .inr ⟨ne_n_of_charClass (by simp [hc]), _, by rw [vprintfStep_directive hm, hc], hcase⟩⟩
    | float =>
      rw [hc] at h
      cases h
      exact ⟨by simp [PrintfState.after, hm, hc],
        .inr ⟨ne_n_of_charClass (by simp [hc]), _, by rw [vprintfStep_directive hm, hc], .float⟩⟩
    | str =>
      rw [hc] at h
      cases h
      exact ⟨by simp [PrintfState.after, hm, hc],
        .inr ⟨ne_n_of_charClass (by simp [hc]), _, by rw [vprintfStep_directive hm, hc], .str⟩⟩
    | other =>
      rw [hc] at h
      simp only at h
      split_ifs at h with hn
      subst hn
      refine ⟨by simp [PrintfState.after, hm, hc], .inl ⟨rfl, ?_⟩⟩
      rw [vprintfStep_directive hm, hc]
      simp

theorem ConversionCase.fetchesArg {rest : PrintfState → TempFormat → PrintfStep}
    (h : ConversionCase env e s.longCtr rest k) (t : TempFormat) (hp : s.ap = UInt32.ofNat p)
    (hend : k.place p + k.width ≤ e.toNat) : FetchesArg (rest s t) s k p := by
  cases h with
  | word hl => exact (fetches_intCase_word t hl hp hend).fetchesArg
  | long hl =>
    unfold intCase
    rw [if_neg hl]
    exact (fetches_wideCase t _ hp hend).fetchesArg
  | float => exact (fetches_wideCase t _ hp hend).fetchesArg
  | str => exact fetchesArg_strCase t hp hend

theorem conversion_step (h : s.consumes c = some k) :
    s.after c = (false, s.longCtr) ∧ ConversionStep env e s c k := by
  obtain ⟨hafter, ⟨hn, hstep⟩ | ⟨hn, rest, hstep, hcase⟩⟩ := @conversion_cases env e s c k h
  · exact ⟨hafter, .ignored hn hstep⟩
  · refine ⟨hafter, .buffered hn rest hstep fun s' t p hl ha hend => ?_⟩
    rw [← hl] at hcase
    exact hcase.fetchesArg t ha hend

theorem stepFetches_skips (h : s.consumes c = some k) (hs : s.Skips env c) : StepFetches env e s c [] s.ap := by
  obtain ⟨hafter, hstep⟩ := conversion_step h
  cases hstep with
  | ignored _ hstep =>
    constructor
    · rw [hstep]
      rfl
    · intro s' hs'
      rw [hstep] at hs'
      cases hs'
      exact ⟨hafter.symm, rfl⟩
  | buffered hc rest hstep _ =>
    obtain ⟨hf, s', hr, hm, hl, ha⟩ := withTempFormat_skips (c := c) rest (hs.resolve_left hc)
    constructor
    · rw [hstep, hf]
    · intro s'' hs'
      rw [hstep, hr] at hs'
      cases hs'
      exact ⟨by rw [hafter, hm, hl], ha⟩

theorem stepFetches_argument (h : s.consumes c = some k) (hs : ¬ s.Skips env c) (hp : s.ap = UInt32.ofNat p)
    (hend : k.place p + k.width ≤ e.toNat) :
    StepFetches env e s c [(k, UInt32.ofNat (k.place p))] (UInt32.ofNat (k.place p + k.width)) := by
  obtain ⟨hafter, hstep⟩ := conversion_step h
  cases hstep with
  | ignored hc _ => exact absurd (.inl hc) hs
  | buffered hc rest hstep hrest =>
    obtain ⟨pre, s', t, hprep, hpre, hl, ha⟩ := withTempFormat_prepared (c := c) rest fun hb => hs (.inr hb)
    obtain ⟨hfetch, hgo⟩ := hrest s' t p hl (ha.trans hp) hend
    rw [hprep] at hstep
    constructor
    · rw [hstep, fetches_append, hpre, hfetch]
      rfl
    · intro s'' hs'
      rw [hstep] at hs'
      obtain ⟨hm, hl', ha'⟩ := hgo s'' hs'
      exact ⟨by rw [hafter, hm, hl', hl], ha'⟩

/-! ## The distance to the next argument -/

/-- The cursor is at `p`, the next argument would be passed from `q` on. -/
def CursorAt.Rel (p q : ℕ) : CursorAt → Prop
  | argument => p = q
  | padding => q = p + 4 ∧ p % 8 = 4
  | behind => q = p + 4 ∧ p % 8 = 0 ∨ p + 8 ≤ q

variable {m : CursorAt}

theorem CursorAt.Rel.le (h : m.Rel p q) : p ≤ q := by
  cases m with
  | argument => exact Nat.le_of_eq h
  | padding => exact Nat.le.intro h.1.symm
  | behind =>
    rcases h with h | h
    · exact Nat.le.intro h.1.symm
    · exact Nat.le_trans (Nat.le_add_right p 8) h

theorem place_mono (h : p ≤ q) : k.place p ≤ k.place q := by
  cases k with
  | word | string => exact h
  | wide =>
    simp only [ArgKind.place, align8]
    omega

/-- An argument that is left increases the distance. -/
theorem CursorAt.Rel.skip (h : m.Rel p q) (h4 : p % 4 = 0) (hp : p < 2 ^ 32) :
    (m.skip k (UInt32.ofNat p)).Rel p (k.place q + k.width) := by
  have hto : (UInt32.ofNat p).toNat = p := UInt32.toNat_ofNat_of_lt' hp
  have hq := le_place (k := k) (p := q)
  cases m with
  | argument =>
    rw [CursorAt.Rel] at h
    subst h
    unfold CursorAt.skip
    rw [hto]
    cases k with
    | word | string =>
      by_cases h8 : p % 8 = 4
      · rw [if_pos ⟨by decide, h8⟩]
        exact ⟨rfl, h8⟩
      · rw [if_neg fun hn => h8 hn.2]
        exact .inl ⟨rfl, by omega⟩
    | wide =>
      rw [if_neg fun hn => hn.1 rfl]
      exact .inr (Nat.add_le_add_right hq 8)
  | padding =>
    refine .inr ?_
    obtain ⟨rfl, -⟩ := h
    cases k <;> (simp only [ArgKind.width]; omega)
  | behind =>
    refine .inr ?_
    rcases h with ⟨rfl, -⟩ | h
    · cases k <;> (simp only [ArgKind.width]; omega)
    · omega

theorem CursorAt.Rel.admits_iff (h : m.Rel p q) : m.Admits k ↔ k.place p = k.place q := by
  cases m with
  | argument =>
    rw [CursorAt.Rel] at h
    subst h
    exact iff_of_true trivial rfl
  | padding =>
    obtain ⟨rfl, h8⟩ := h
    cases k with
    | word | string => exact iff_of_false (by simp [CursorAt.Admits]) (by simp [ArgKind.place])
    | wide =>
      refine iff_of_true rfl ?_
      simp only [ArgKind.place, align8]
      omega
  | behind =>
    refine iff_of_false id ?_
    unfold CursorAt.Rel at h
    cases k with
    | word | string =>
      simp only [ArgKind.place]
      omega
    | wide =>
      simp only [ArgKind.place, align8]
      omega

/-! ## The loop -/

/-- What the directives behind a step fetch. -/
def fetchesAfter (env : PrintfEnv) (e : Addr) (r : Except PrintfEnd PrintfState) (fmt : List Char) :
    List (List (ArgKind × Addr)) :=
  match r with
  | .error _ => []
  | .ok s => directiveFetches env e s fmt

/-- The condition behind a step. -/
def keptAfter (env : PrintfEnv) (e : Addr) (m : CursorAt) (r : Except PrintfEnd PrintfState) (fmt : List Char) : Prop :=
  match r with
  | .error _ => True
  | .ok s => CursorKept env e m s fmt

theorem cursorKept_cons (fmt : List Char) : CursorKept env e m s (c :: fmt) ↔
    match s.consumes c with
    | none => keptAfter env e m (vprintfStep env e s c).2 fmt
    | some k => if s.Skips env c then keptAfter env e (m.skip k s.ap) (vprintfStep env e s c).2 fmt
      else m.Admits k ∧ keptAfter env e .argument (vprintfStep env e s c).2 fmt := by
  rw [CursorKept]
  rfl

theorem directiveFetches_cons (fmt : List Char) : directiveFetches env e s (c :: fmt) =
    if (s.consumes c).isSome then fetches (vprintfStep env e s c).1 :: fetchesAfter env e (vprintfStep env e s c).2 fmt
    else fetchesAfter env e (vprintfStep env e s c).2 fmt := by
  rw [directiveFetches]
  rfl

theorem matches_cons {a : List (ArgKind × Addr)} {l : List (List (ArgKind × Addr))} {b : ArgKind × Addr}
    {args : List (ArgKind × Addr)} : Matches (a :: l) (b :: args) ↔ (∀ f ∈ a, f = b) ∧ Matches l args := by
  rw [Matches, List.zip_cons_cons, List.forall_mem_cons]
  rfl

/-- The directives of a format fetch their own arguments exactly when the cursor is kept. -/
theorem matches_iff_cursorKept {fmt : List Char} (hp : s.ap = UInt32.ofNat p) (h4 : p % 4 = 0) (hq4 : q % 4 = 0)
    (hrel : m.Rel p q) (hend : areaEnd q (passedKinds s.mightFormat s.longCtr fmt) ≤ e.toNat) :
    Matches (directiveFetches env e s fmt) (layout q (passedKinds s.mightFormat s.longCtr fmt)) ↔
      CursorKept env e m s fmt := by
  induction fmt generalizing s p q m with
  | nil => exact iff_of_true (fun x hx => by cases hx) trivial
  | cons c fmt ih =>
    -- the rest of the format, from cursor `p'` and arguments from `q'` on
    have hrest : ∀ {l : List (ArgKind × Addr)} {m' : CursorAt} {p' q' : ℕ},
        StepFetches env e s c l (UInt32.ofNat p') → p' % 4 = 0 → q' % 4 = 0 → m'.Rel p' q' →
        areaEnd q' (passedKinds (s.after c).1 (s.after c).2 fmt) ≤ e.toNat →
        (Matches (fetchesAfter env e (vprintfStep env e s c).2 fmt)
            (layout q' (passedKinds (s.after c).1 (s.after c).2 fmt)) ↔
          keptAfter env e m' (vprintfStep env e s c).2 fmt) := by
      intro l m' p' q' hstep hp4 hq4 hrel hend
      cases hr : (vprintfStep env e s c).2 with
      | error r => exact iff_of_true (fun x hx => by cases hx) trivial
      | ok s' =>
        obtain ⟨hafter, hap⟩ := hstep.goesOn s' hr
        rw [← hafter] at hend ⊢
        exact ih hap hp4 hq4 hrel hend
    rw [passedKinds_cons] at hend ⊢
    rw [cursorKept_cons, directiveFetches_cons]
    have hlt := e.toNat_lt
    cases hc : s.consumes c with
    | none =>
      rw [hc] at hend
      have hstep : StepFetches env e s c [] s.ap := stepFetches_none hc
      rw [hp] at hstep
      exact hrest hstep h4 hq4 hrel hend
    | some k =>
      rw [hc] at hend
      simp only [Option.toList_some, List.singleton_append, areaEnd_cons, Option.isSome_some, if_true, layout_cons]
        at hend ⊢
      have hq' : (k.place q + k.width) % 4 = 0 := by
        cases k <;> simp only [ArgKind.place, ArgKind.width, align8] <;> omega
      have hqend : k.place q + k.width ≤ e.toNat := Nat.le_trans (le_areaEnd _ _) hend
      have hpq := place_mono (k := k) hrel.le
      have hplt : p < 2 ^ 32 := by
        have := le_place (k := k) (p := p)
        omega
      rw [matches_cons]
      by_cases hs : s.Skips env c
      · have hstep : StepFetches env e s c [] s.ap := stepFetches_skips hc hs
        rw [if_pos hs, hstep.fetches, hp]
        rw [hp] at hstep
        rw [hrest hstep h4 hq' (hrel.skip h4 hplt) hend]
        exact and_iff_right fun f hf => by cases hf
      · have hpend : k.place p + k.width ≤ e.toNat := Nat.le_trans (Nat.add_le_add_right hpq _) hqend
        have hstep := stepFetches_argument hc hs hp hpend
        rw [if_neg hs, hstep.fetches, hrel.admits_iff]
        have hplace : (∀ f ∈ [(k, UInt32.ofNat (k.place p))], f = (k, UInt32.ofNat (k.place q))) ↔
            k.place p = k.place q := by
          simp only [List.mem_singleton, forall_eq, Prod.mk.injEq, true_and]
          rw [← UInt32.toNat_inj, UInt32.toNat_ofNat_of_lt' (by rw [UInt32.size]; omega),
            UInt32.toNat_ofNat_of_lt' (by rw [UInt32.size]; omega)]
        rw [hplace]
        refine and_congr_right fun heq => ?_
        rw [heq] at hstep
        exact hrest hstep hq' hq' rfl hend

theorem fetches_vprintfLoop_flatten (fmt : List Char) :
    fetches (vprintfLoop env e s fmt).1 = (directiveFetches env e s fmt).flatten := by
  induction fmt generalizing s with
  | nil => rfl
  | cons c fmt ih =>
    have hrest : fetches (vprintfLoop env e s (c :: fmt)).1 =
        fetches (vprintfStep env e s c).1 ++ (fetchesAfter env e (vprintfStep env e s c).2 fmt).flatten := by
      rw [vprintfLoop]
      cases hstep : vprintfStep env e s c with
      | mk evs r =>
        cases r with
        | error r => simp [fetchesAfter]
        | ok s' => simp [fetchesAfter, ih]
    rw [hrest, directiveFetches_cons]
    cases hc : s.consumes c with
    | none =>
      have hnone : fetches (vprintfStep env e s c).1 = [] := (stepFetches_none hc).fetches
      rw [hnone]
      rfl
    | some k => rfl

/-- The fetches of the directives are all that `_vprintf_wa` makes. -/
theorem fetches_vprintfWa {format : List Char} {ap : Addr} (he : env.nativeEndAddr = some e) :
    fetches (vprintfWa env format ap).1 = (directiveFetches env e (.start ap) format).flatten := by
  rw [vprintfWa, he]
  exact fetches_vprintfLoop_flatten format

/-- In an area inside the memory each directive that fetches an argument fetches its own exactly when the cursor is
kept for it. -/
theorem fetchesInOrder_iff_cursorKept {format : List Char} {ap : Addr} (he : env.nativeEndAddr = some e)
    (h4 : ap.toNat % 4 = 0) (hend : areaEnd ap.toNat (passedKinds false 0 format) ≤ e.toNat) :
    FetchesInOrder env format ap ↔ CursorKept env e .argument (.start ap) format := by
  have hmatches : Matches (directiveFetches env e (.start ap) format) (layout ap.toNat (passedKinds false 0 format)) ↔
      CursorKept env e .argument (.start ap) format :=
    matches_iff_cursorKept (s := .start ap) UInt32.ofNat_toNat.symm h4 h4 rfl hend
  rw [← hmatches, FetchesInOrder, he]
  simp

instance CursorKept.decidable (env : PrintfEnv) (e : Addr) : ∀ m s fmt, Decidable (CursorKept env e m s fmt)
  | _, _, [] => isTrue trivial
  | m, s, c :: fmt =>
    have next (m : CursorAt) : Decidable (keptAfter env e m (vprintfStep env e s c).2 fmt) :=
      match (vprintfStep env e s c).2 with
      | .error _ => isTrue trivial
      | .ok s => CursorKept.decidable env e m s fmt
    have : Decidable (match s.consumes c with
        | none => keptAfter env e m (vprintfStep env e s c).2 fmt
        | some k => if s.Skips env c then keptAfter env e (m.skip k s.ap) (vprintfStep env e s c).2 fmt
          else m.Admits k ∧ keptAfter env e .argument (vprintfStep env e s c).2 fmt) :=
      match s.consumes c with
      | none => next m
      | some k =>
        have := next (m.skip k s.ap)
        have := next .argument
        inferInstanceAs (Decidable (if s.Skips env c then _ else _))
    decidable_of_iff _ (cursorKept_cons fmt).symm

/-- An environment in which `malloc` fails. -/
def noMemoryEnv : PrintfEnv := { walkerEnv [] with mallocOk := fun _ => false }

/-- `%n` comes last, and the directive without a buffer in front of a `long long` that needs padding. -/
def keptFormat : List Char := "%d%-000000000000000000000000000000d%lld%s%n".toList

theorem fetchesInOrder_keptFormat : FetchesInOrder noMemoryEnv keptFormat 0x2000 :=
  (fetchesInOrder_iff_cursorKept rfl (by decide) (by decide)).2 (by decide)

/-- `%n` in front of a number. -/
theorem countFirst_not_fetchesInOrder :
    ¬ ∀ (env : PrintfEnv) (e : Addr) (format : List Char) (ap : Addr), env.nativeEndAddr = some e →
      ap.toNat % 8 = 0 → areaEnd ap.toNat (passedKinds false 0 format) ≤ e.toNat → FetchesInOrder env format ap := by
  intro h
  have hmatches := h (walkerEnv []) 0x3000 "%n%d".toList 0x2000 rfl (by decide) (by decide) 0x3000 rfl
  have hfetched := hmatches ([(.word, 0x2000)], (.word, 0x2004)) (by decide) (.word, 0x2000) (by decide)
  exact absurd hfetched (by decide)

end VelaWasm.LibcBypass
