/-
The two walkers of a varargs area. `_vprintf_wa` aligns the 8-byte arguments, as the compiler laid them
out; `va_list_string2conv` does not. They find the same strings exactly when no 8-byte argument in
front of a string needs padding.
-/
import VelaWasm.Lib.Align
import VelaWasm.LibcBypass.Printf
import VelaWasm.LibcBypass.Varargs

namespace VelaWasm.LibcBypass

open VelaWasm.Align

/-! ## What is fetched -/

@[simp] def PrintfEvent.fetch? : PrintfEvent → Option (ArgKind × Addr)
  | fetch kind pos => some (kind, pos)
  | _ => none

/-- The arguments a run fetches. -/
def fetches (evs : List PrintfEvent) : List (ArgKind × Addr) := evs.filterMap PrintfEvent.fetch?

/-- An area for the arguments `ks` from `p` on, inside memory that ends at `e`, with valid strings, in
an environment whose allocations succeed. -/
structure InArea (env : PrintfEnv) (e : Addr) (p : Nat) (ks : List ArgKind) : Prop where
  fits : areaEnd p ks ≤ e.toNat
  allocs : ∀ id, env.mallocOk id = true
  strings : ∀ a ∈ alignedStrings p ks, env.validateAppStrAddr (env.mem (UInt32.ofNat a)) = true

@[simp] theorem fetches_append (l m : List PrintfEvent) : fetches (l ++ m) = fetches l ++ fetches m :=
  List.filterMap_append

@[simp] theorem fetches_nil : fetches [] = [] := rfl

@[simp] theorem fetches_cons (ev : PrintfEvent) (l : List PrintfEvent) :
    fetches (ev :: l) = ev.fetch?.toList ++ fetches l := by
  rw [fetches, List.filterMap_cons]
  cases ev.fetch? <;> rfl

@[simp] theorem fetches_release (t : TempFormat) : fetches t.release = [] := by
  unfold TempFormat.release
  cases t.heap <;> rfl

@[simp] theorem fetches_printErr : fetches printErr = [] := rfl

@[simp] theorem fetches_outputTempFormat (env : PrintfEnv) (t : TempFormat) (size : Nat) (buf : List Char)
    (arg : PrintfArg) : fetches (outputTempFormat env t size buf arg) = [] := by
  have hout : ∀ l : List Char, fetches (l.map .out) = [] := by
    intro l
    simp only [fetches, List.filterMap_map]
    exact List.filterMap_eq_nil_iff.2 fun _ _ => rfl
  unfold outputTempFormat
  simp [hout]

@[simp] theorem fetches_removeModifier (buf : List Char) (k : Nat) : fetches (removeModifier buf k).2 = [] := by
  unfold removeModifier
  simp only
  split_ifs <;> rfl

/-! ## The cursor -/

theorem toNat_ofNat_add {p n : Nat} (h : p + n < 2 ^ 32) : (UInt32.ofNat p + UInt32.ofNat n).toNat = p + n := by
  rw [← UInt32.ofNat_add]
  exact UInt32.toNat_ofNat_of_lt' h

theorem checkVaArg_of_le {e : Addr} {p n : Nat} (h : p + n ≤ e.toNat) :
    checkVaArg e (UInt32.ofNat p) (UInt32.ofNat n) = true := by
  have hlt := e.toNat_lt
  have hadd : (UInt32.ofNat p + UInt32.ofNat n).toNat = p + n := toNat_ofNat_add (by omega)
  unfold checkVaArg
  simp only [Bool.not_eq_true', decide_eq_false_iff_not, UInt32.lt_iff_toNat_lt, hadd]
  omega

theorem alignAp_ofNat {p : Nat} (h : p + 7 < 2 ^ 32) : alignAp (UInt32.ofNat p) = UInt32.ofNat (align8 p) := by
  have hlt : align8 p < 2 ^ 32 := by
    unfold align8
    omega
  have hadd : (UInt32.ofNat p + 7).toNat = p + 7 := toNat_ofNat_add h
  apply UInt32.toNat_inj.1
  unfold alignAp
  rw [toNat_and_not7, hadd, UInt32.toNat_ofNat_of_lt' hlt]
  rfl

/-! ## Directives -/

variable {env : PrintfEnv} {e : Addr} {s : PrintfState}

/-- A step that fetches `l` and goes on after the directive with the cursor at `q`. -/
def Fetches (r : PrintfStep) (s : PrintfState) (l : List (ArgKind × Addr)) (q : Nat) : Prop :=
  ∃ s', r.2 = .ok s' ∧ s'.mightFormat = false ∧ s'.longCtr = s.longCtr ∧ s'.ap = UInt32.ofNat q ∧ fetches r.1 = l

theorem fetches_wideCase {p : Nat} (t : TempFormat) (arg : UInt64 → PrintfArg) (hp : s.ap = UInt32.ofNat p)
    (h : align8 p + 8 ≤ e.toNat) :
    Fetches (wideCase env e s t arg) s [(.wide, UInt32.ofNat (align8 p))] (align8 p + 8) := by
  have hlt := e.toNat_lt
  have hle := le_align8 p
  have hap : alignAp s.ap = UInt32.ofNat (align8 p) := by
    rw [hp]
    refine alignAp_ofNat ?_
    unfold align8 at h
    omega
  have hck : checkVaArg e (UInt32.ofNat (align8 p)) 8 = true := checkVaArg_of_le h
  unfold wideCase
  simp only [hap, hck, if_true]
  exact ⟨_, rfl, rfl, rfl, (UInt32.ofNat_add _ _).symm, by simp⟩

theorem fetches_intCase_word {p : Nat} (t : TempFormat) (hs : s.longCtr < 2) (hp : s.ap = UInt32.ofNat p)
    (h : p + 4 ≤ e.toNat) : Fetches (intCase env e s t) s [(.word, UInt32.ofNat p)] (p + 4) := by
  have hck : checkVaArg e (UInt32.ofNat p) 4 = true := checkVaArg_of_le h
  unfold intCase
  rw [if_pos hs, hp, if_pos hck]
  refine ⟨_, rfl, rfl, rfl, (UInt32.ofNat_add _ _).symm, ?_⟩
  split_ifs <;> simp

theorem fetches_strOutput (t : TempFormat) (sOffset : Addr) :
    ∃ s', (strOutput env s t sOffset).2 = .ok s' ∧ s'.mightFormat = s.mightFormat ∧ s'.longCtr = s.longCtr ∧
      s'.ap = s.ap ∧ fetches (strOutput env s t sOffset).1 = [] := by
  unfold strOutput
  simp only
  generalize PrintfArg.str _ = arg
  split_ifs <;> exact ⟨_, rfl, rfl, rfl, rfl, by simp⟩

theorem fetches_strCase {p : Nat} (t : TempFormat) (hp : s.ap = UInt32.ofNat p) (h : p + 4 ≤ e.toNat)
    (hv : env.validateAppStrAddr (env.mem (UInt32.ofNat p)) = true) :
    Fetches (strCase env e s t) s [(.string, UInt32.ofNat p)] (p + 4) := by
  have hck : checkVaArg e (UInt32.ofNat p) 4 = true := checkVaArg_of_le h
  unfold strCase
  simp only [hp, hck, hv, if_true]
  obtain ⟨s', hr, hm, hl, ha, hf⟩ :=
    @fetches_strOutput env { s.leave with ap := UInt32.ofNat p + 4 } t (env.mem (UInt32.ofNat p))
  refine ⟨s', hr, hm, hl, ?_, ?_⟩
  · rw [ha]
    exact (UInt32.ofNat_add _ _).symm
  · simp [hf]

/-- With allocations that succeed a directive gets its buffer. -/
theorem fetches_withTempFormat (halloc : ∀ id, env.mallocOk id = true) (c : Char)
    (k : PrintfState → TempFormat → PrintfStep) {l : List (ArgKind × Addr)} {q : Nat}
    (hk : ∀ s' t, s'.longCtr = s.longCtr → s'.ap = s.ap → Fetches (k s' t) s' l q) :
    Fetches (withTempFormat env s c k) s l q := by
  have hprep : ∃ evs s' t, prepareTempFormat env s c = (evs, s', some t) ∧ fetches evs = [] ∧
      s'.longCtr = s.longCtr ∧ s'.ap = s.ap := by
    unfold prepareTempFormat
    simp only [halloc, if_true]
    split_ifs
    · exact ⟨_, _, _, rfl, rfl, rfl, rfl⟩
    · exact ⟨_, _, _, rfl, rfl, rfl, rfl⟩
  obtain ⟨evs, s', t, hprep, hevs, hl, ha⟩ := hprep
  obtain ⟨s'', hr, hm, hl', ha', hf⟩ := hk s' t hl ha
  unfold withTempFormat
  rw [hprep]
  exact ⟨s'', hr, hm, hl'.trans hl, ha', by simp only [fetches_append, hevs, hf, List.nil_append]⟩

/-! ## The loop -/

theorem InArea.of_le {ks ks' : List ArgKind} {p q : Nat} (h : InArea env e p ks) (hend : areaEnd q ks' ≤ areaEnd p ks)
    (hs : ∀ a ∈ alignedStrings q ks', a ∈ alignedStrings p ks) : InArea env e q ks' :=
  ⟨Nat.le_trans hend h.fits, h.allocs, fun a ha => h.strings a (hs a ha)⟩

theorem vprintfLoop_cons {c : Char} {fmt : List Char} {evs : List PrintfEvent} {s' : PrintfState}
    (h : vprintfStep env e s c = (evs, .ok s')) :
    (vprintfLoop env e s (c :: fmt)).1 = evs ++ (vprintfLoop env e s' fmt).1 := by
  rw [vprintfLoop, h]

/-- A conversion fetches its argument from the beginning of its area, and leaves the cursor at the area of
the rest. -/
def FetchesFirst (env : PrintfEnv) (e : Addr) (s : PrintfState) (c : Char) (p : Nat) (ks ks' : List ArgKind) : Prop :=
  ∃ l q, Fetches (vprintfStep env e s c) s l q ∧ InArea env e q ks' ∧
    (alignedArgs p ks).map (fun a => (a.1, UInt32.ofNat a.2)) =
      l ++ (alignedArgs q ks').map fun a => (a.1, UInt32.ofNat a.2)

section

variable {c : Char} {p : Nat} {ks : List ArgKind}

theorem fetchesFirst_int (hm : s.mightFormat = true) (hc : charClass c = .int) (hp : s.ap = UInt32.ofNat p)
    (h : InArea env e p ((if s.longCtr < 2 then .word else .wide) :: ks)) :
    FetchesFirst env e s c p ((if s.longCtr < 2 then .word else .wide) :: ks) ks := by
  have hstep : vprintfStep env e s c = withTempFormat env s c (intCase env e) := by
    rw [vprintfStep_directive hm, hc]
  by_cases hlt : s.longCtr < 2
  · simp only [if_pos hlt] at h ⊢
    have hend : p + 4 ≤ e.toNat := Nat.le_trans (le_areaEnd _ _) h.fits
    refine ⟨[(.word, UInt32.ofNat p)], p + 4, ?_, h.of_le (Nat.le_refl _) (fun _ ha => ha), rfl⟩
    rw [hstep]
    refine fetches_withTempFormat h.allocs c _ fun s' t hl ha => ?_
    exact fetches_intCase_word t (by rwa [hl]) (ha.trans hp) hend
  · simp only [if_neg hlt] at h ⊢
    have hend : align8 p + 8 ≤ e.toNat := Nat.le_trans (le_areaEnd _ _) h.fits
    refine ⟨[(.wide, UInt32.ofNat (align8 p))], align8 p + 8, ?_, h.of_le (Nat.le_refl _) (fun _ ha => ha), rfl⟩
    rw [hstep]
    refine fetches_withTempFormat h.allocs c _ fun s' t hl ha => ?_
    unfold intCase
    rw [if_neg (by rwa [hl])]
    exact fetches_wideCase t _ (ha.trans hp) hend

theorem fetchesFirst_float (hm : s.mightFormat = true) (hc : charClass c = .float) (hp : s.ap = UInt32.ofNat p)
    (h : InArea env e p (.wide :: ks)) : FetchesFirst env e s c p (.wide :: ks) ks := by
  have hend : align8 p + 8 ≤ e.toNat := Nat.le_trans (le_areaEnd _ _) h.fits
  refine ⟨[(.wide, UInt32.ofNat (align8 p))], align8 p + 8, ?_, h.of_le (Nat.le_refl _) (fun _ ha => ha), rfl⟩
  have hstep : vprintfStep env e s c = withTempFormat env s c (floatCase env e) := by
    rw [vprintfStep_directive hm, hc]
  rw [hstep]
  refine fetches_withTempFormat h.allocs c _ fun s' t hl ha => ?_
  exact fetches_wideCase t _ (ha.trans hp) hend

theorem fetchesFirst_str (hm : s.mightFormat = true) (hc : charClass c = .str) (hp : s.ap = UInt32.ofNat p)
    (h : InArea env e p (.string :: ks)) : FetchesFirst env e s c p (.string :: ks) ks := by
  have hend : p + 4 ≤ e.toNat := Nat.le_trans (le_areaEnd _ _) h.fits
  refine ⟨[(.string, UInt32.ofNat p)], p + 4, ?_,
    h.of_le (Nat.le_refl _) (fun _ ha => List.mem_cons_of_mem _ ha), rfl⟩
  have hstep : vprintfStep env e s c = withTempFormat env s c (strCase env e) := by
    rw [vprintfStep_directive hm, hc]
  rw [hstep]
  refine fetches_withTempFormat h.allocs c _ fun s' t hl ha => ?_
  exact fetches_strCase t (ha.trans hp) hend (h.strings p List.mem_cons_self)

theorem fetchesFirst_other (hm : s.mightFormat = true) (hc : charClass c = .other) (hp : s.ap = UInt32.ofNat p)
    (h : InArea env e p ks) : FetchesFirst env e s c p ks ks := by
  have hr : ∃ evs, vprintfStep env e s c = (evs, .ok s.leave) ∧ fetches evs = [] := by
    rw [vprintfStep_directive hm, hc]
    split_ifs <;> exact ⟨_, rfl, rfl⟩
  obtain ⟨evs, hr, hf⟩ := hr
  refine ⟨[], p, ?_, h, rfl⟩
  rw [hr]
  exact ⟨_, rfl, rfl, rfl, hp, hf⟩

end

/-- In an area laid out for the format `_vprintf_wa` fetches the format's arguments, each from its
place. -/
theorem fetches_vprintfLoop {fmt : List Char} {p : Nat} (hp : s.ap = UInt32.ofNat p)
    (h : InArea env e p (argKinds s.mightFormat s.longCtr fmt)) :
    fetches (vprintfLoop env e s fmt).1 =
      (alignedArgs p (argKinds s.mightFormat s.longCtr fmt)).map fun a => (a.1, UInt32.ofNat a.2) := by
  induction fmt generalizing s p with
  | nil => unfold argKinds; rfl
  | cons c fmt ih =>
    cases hm : s.mightFormat with
    | false =>
      rw [hm, argKinds] at h
      rw [argKinds]
      by_cases hc : c = '%'
      · subst hc
        rw [if_pos rfl] at h ⊢
        rw [vprintfLoop_cons (vprintfStep_percent hm)]
        exact ih hp h
      · rw [if_neg hc] at h ⊢
        rw [vprintfLoop_cons (vprintfStep_literal hm hc)]
        rw [← hm] at h ⊢
        simpa using ih hp h
    | true =>
      rw [hm, argKinds] at h
      rw [argKinds]
      -- a character that only changes the counter
      have hstay : ∀ k, vprintfStep env e s c = ([], .ok { s with directive := s.directive ++ [c], longCtr := k }) →
          InArea env e p (argKinds true k fmt) → fetches (vprintfLoop env e s (c :: fmt)).1 =
            (alignedArgs p (argKinds true k fmt)).map fun a => (a.1, UInt32.ofNat a.2) := by
        intro k hstep hk
        rw [vprintfLoop_cons hstep]
        have hrest := ih (s := { s with directive := s.directive ++ [c], longCtr := k }) hp
        simp only [hm] at hrest
        simpa [hm] using hrest hk
      -- a conversion
      have hleave : ∀ ks, FetchesFirst env e s c p ks (argKinds false s.longCtr fmt) →
          fetches (vprintfLoop env e s (c :: fmt)).1 = (alignedArgs p ks).map fun a => (a.1, UInt32.ofNat a.2) := by
        rintro ks ⟨l, q, ⟨s', hr, hm', hl, ha, hf⟩, hq, hks⟩
        have hstep : vprintfStep env e s c = ((vprintfStep env e s c).1, .ok s') := by rw [← hr]
        rw [vprintfLoop_cons hstep, fetches_append, hf, hks]
        rw [← hm', ← hl] at hq ⊢
        rw [ih ha hq]
      cases hc : charClass c with
      | flag | half =>
        rw [hc] at h
        refine hstay s.longCtr ?_ h
        rw [vprintfStep_directive hm, hc]
      | size | max | long =>
        rw [hc] at h
        refine hstay _ ?_ h
        rw [vprintfStep_directive hm, hc]
      | int =>
        rw [hc] at h
        exact hleave _ (fetchesFirst_int hm hc hp h)
      | float =>
        rw [hc] at h
        exact hleave _ (fetchesFirst_float hm hc hp h)
      | str =>
        rw [hc] at h
        exact hleave _ (fetchesFirst_str hm hc hp h)
      | other =>
        rw [hc] at h
        exact hleave _ (fetchesFirst_other hm hc hp h)

/-! ## Agreement -/

/-- The addresses from which `_vprintf_wa` fetches a `%s` argument. -/
def stringFetches (evs : List PrintfEvent) : List Addr :=
  ((fetches evs).filter fun a => a.1 = .string).map Prod.snd

theorem mem_stringFetches {evs : List PrintfEvent} {a : Addr} : a ∈ stringFetches evs ↔ (.string, a) ∈ fetches evs := by
  simp [stringFetches]

theorem ofNat_mem_map {l : List Nat} {a : Nat} (hl : ∀ b ∈ l, b < 2 ^ 32) (ha : a < 2 ^ 32) :
    UInt32.ofNat a ∈ l.map UInt32.ofNat ↔ a ∈ l := by
  constructor
  · intro h
    obtain ⟨b, hb, he⟩ := List.mem_map.1 h
    have hba := congrArg UInt32.toNat he
    rw [UInt32.toNat_ofNat_of_lt' (hl b hb), UInt32.toNat_ofNat_of_lt' ha] at hba
    exact hba ▸ hb
  · exact fun h => List.mem_map_of_mem h

/-- Places below `2 ^ 32` are the same as addresses exactly when they are the same. -/
theorem map_ofNat_agree {l m : List Nat} (hl : ∀ b ∈ l, b < 2 ^ 32) (hm : ∀ b ∈ m, b < 2 ^ 32) :
    (∀ a, a ∈ l.map UInt32.ofNat ↔ a ∈ m.map UInt32.ofNat) ↔ ∀ a, a ∈ l ↔ a ∈ m := by
  constructor
  · intro h a
    constructor
    · intro ha
      exact (ofNat_mem_map hm (hl a ha)).1 ((h _).1 (List.mem_map_of_mem ha))
    · intro ha
      exact (ofNat_mem_map hl (hm a ha)).1 ((h _).2 (List.mem_map_of_mem ha))
  · intro h a
    simp only [List.mem_map]
    exact exists_congr fun b => and_congr_left fun _ => h b

theorem mem_stringFetches_vprintfWa {format : List Char} {ap : Addr} (he : env.nativeEndAddr = some e)
    (h : InArea env e ap.toNat (argKinds false 0 format)) (a : Addr) :
    a ∈ stringFetches (vprintfWa env format ap).1 ↔
      a ∈ (alignedStrings ap.toNat (argKinds false 0 format)).map UInt32.ofNat := by
  have hap : ap = UInt32.ofNat ap.toNat := UInt32.ofNat_toNat.symm
  have hf := fetches_vprintfLoop (s := ⟨false, 0, [], ap, 0⟩) hap h
  rw [mem_stringFetches, vprintfWa, he]
  simp only at hf ⊢
  rw [hf]
  simp only [List.mem_map, Prod.mk.injEq, Prod.exists, mem_alignedStrings_iff]
  constructor
  · rintro ⟨k, b, hb, rfl, rfl⟩
    exact ⟨b, hb, rfl⟩
  · rintro ⟨b, hb, rfl⟩
    exact ⟨_, b, hb, rfl, rfl⟩

/-- The walkers of an 8-byte aligned area find the same strings exactly when every 8-byte argument
with a string behind it comes after an even number of 4-byte arguments. -/
theorem walkers_agree_iff (W : Wamr) (execEnv : Addr) (toNative : Bool) (m : Mem) {format : List Char} {ap : Addr}
    (hnull : ap ≠ null) (h8 : ap.toNat % 8 = 0) (he : env.nativeEndAddr = some e)
    (h : InArea env e ap.toNat (argKinds false 0 format)) :
    (∀ a, a ∈ (vaListString2conv W execEnv toNative format ap m).2 ↔
        a ∈ stringFetches (vprintfWa env format ap).1) ↔
      InPhase false (argKinds false 0 format) := by
  have hslots : (vaListString2conv W execEnv toNative format ap m).2 =
      (packedStrings ap.toNat (argKinds false 0 format)).map UInt32.ofNat := by
    have hconv := @convLoop_slots W execEnv toNative false 0 ap.toNat format m
    rw [UInt32.ofNat_toNat] at hconv
    rw [vaListString2conv, if_neg hnull, hconv]
  have hlt := e.toNat_lt
  have hend := h.fits
  simp only [hslots, mem_stringFetches_vprintfWa he h]
  refine (map_ofNat_agree (fun b hb => ?_) fun b hb => ?_).trans (strings_agree_iff h8)
  · have := lt_of_mem_packed (Nat.le_refl _) hb
    omega
  · have := lt_of_mem_aligned hb
    omega

/-- An environment with `words` at `0x2000`, every string valid and empty. -/
def walkerEnv (words : List UInt32) : PrintfEnv where
  moduleInst := 1
  wamr := .linear id fun _ => 0x1000
  nativeEndAddr := some 0x3000
  validateAppStrAddr _ := true
  mem a := words.getD ((a - 0x2000) / 4).toNat 0
  cstring _ := []
  mallocOk _ := true
  render _ _ := some []

def evenFormat : List Char := "%d: %x %lld %s".toList

theorem walkers_agree_even :
    InPhase false (argKinds false 0 evenFormat) ∧ ∀ a,
      a ∈ (vaListString2conv (.linear id fun _ => 0x1000) 1 true evenFormat 0x2000 (walkerEnv []).mem).2 ↔
        a ∈ stringFetches (vprintfWa (walkerEnv []) evenFormat 0x2000).1 := by
  have harea : InArea (walkerEnv []) 0x3000 (0x2000 : Addr).toNat (argKinds false 0 evenFormat) :=
    ⟨by decide, fun _ => rfl, fun _ _ => rfl⟩
  have heven : InPhase false (argKinds false 0 evenFormat) := by decide
  exact ⟨heven, (walkers_agree_iff _ 1 true _ (by decide) (by decide) rfl harea).2 heven⟩

def oddFormat : List Char := "%d%lld%s".toList

/-- After an `int` and a `long long` the string is taken at offset 12 by one walker and 16 by the
other. -/
theorem walkers_disagree :
    ¬ ∀ (W : Wamr) (execEnv : Addr) (toNative : Bool) (m : Mem) (env : PrintfEnv) (e : Addr) (format : List Char)
      (ap : Addr), ap ≠ null → ap.toNat % 8 = 0 → env.nativeEndAddr = some e →
      InArea env e ap.toNat (argKinds false 0 format) → ∀ a,
      (a ∈ (vaListString2conv W execEnv toNative format ap m).2 ↔ a ∈ stringFetches (vprintfWa env format ap).1) := by
  intro h
  have harea : InArea (walkerEnv []) 0x3000 (0x2000 : Addr).toNat (argKinds false 0 oddFormat) :=
    ⟨by decide, fun _ => rfl, fun _ _ => rfl⟩
  have h12 := (h (.linear id fun _ => 0x1000) 1 true (walkerEnv []).mem (walkerEnv []) 0x3000 oddFormat 0x2000
    (by decide) (by decide) rfl harea 0x200c).1 (by decide)
  exact absurd h12 (by decide)

end VelaWasm.LibcBypass
