/-
What `_vprintf_wa` sends to its out function, and `glue_snprintf` over it, compared with C's rendering of
the format. A directive is rendered into a buffer of 64 characters, or of a string's length and 64 more,
and sent up to the first null character in it: the output is C's exactly when every rendering fits and has
no null character.
-/
import Mathlib.Data.List.TakeWhile
import VelaWasm.LibcBypass.Rendering
import VelaWasm.LibcBypass.Walkers

namespace VelaWasm.LibcBypass

/-! ## `glue_snprintf` -/

/-- `str_context`; `str` holds the characters from the pointer on, if it is not null. -/
structure StrContext where
  str : Option (List Char)
  max : UInt32
  count : UInt32

/-- `sprintf_out` -/
def sprintfOut (ctx : StrContext) (c : Char) : StrContext :=
  if ctx.str = none ∨ ctx.max ≤ ctx.count then { ctx with count := ctx.count + 1 }
  else
    let c := if ctx.count = ctx.max - 1 then nul else c
    { ctx with str := ctx.str.map fun s => s.set ctx.count.toNat c, count := ctx.count + 1 }

@[simp] def PrintfEvent.out? : PrintfEvent → Option Char
  | out c => some c
  | _ => none

/-- The characters that a run sends to the out function. -/
def outs (evs : List PrintfEvent) : List Char := evs.filterMap PrintfEvent.out?

/-- `glue_snprintf`: the string it leaves and what it returns; `validated` says whether
`validate_native_addr` accepts `va_args`. -/
def glueSnprintf (env : PrintfEnv) (validated : Bool) (str : Option (List Char)) (size : UInt32) (format : List Char)
    (vaArgs : Addr) : Option (List Char) × Int32 :=
  if validated then
    let (evs, r) := vprintfWa env format vaArgs
    let ctx := (outs evs).foldl sprintfOut ⟨str, size, 0⟩
    if r = .done then
      (if ctx.count < ctx.max then ctx.str.map fun s => s.set ctx.count.toNat nul else ctx.str, ctx.count.toInt32)
    else (ctx.str, 0)
  else (str, 0)

/-! ## C's output -/

section

variable (env : PrintfEnv)

/-- The argument of a conversion at `ap` and where the arguments go on, as wasm32 lays them out. -/
def Conversion.fetch (ap : Addr) : Conversion → PrintfArg × Addr
  | int _ m =>
    if m.wide then (.long (load64 env.mem (alignAp ap)), alignAp ap + 8) else (.int (env.mem ap), ap + 4)
  | char => (.int (env.mem ap), ap + 4)
  | str => (.str (some (env.cstring (env.wamr.addrAppToNative env.moduleInst (env.mem ap)))), ap + 4)

/-- The literals and the complete renderings of a format's arguments. -/
def cOutput : Addr → List Piece → List Char
  | _, [] => []
  | ap, .literal c _ :: ps => c :: cOutput ap ps
  | ap, .percent :: ps => '%' :: cOutput ap ps
  | ap, .directive d :: ps => d.render (d.conversion.fetch env ap).1 ++ cOutput (d.conversion.fetch env ap).2 ps

/-- The argument is in memory that ends at `e`; a string is valid, its address not null, and its length
with the 64 characters reserved for the width is one of `uint32_t`. -/
def Conversion.Valid (e ap : Addr) : Conversion → Prop
  | int _ m => if m.wide then (alignAp ap).toNat + 8 ≤ e.toNat else ap.toNat + 4 ≤ e.toNat
  | char => ap.toNat + 4 ≤ e.toNat
  | str => ap.toNat + 4 ≤ e.toNat ∧ env.validateAppStrAddr (env.mem ap) = true ∧ env.mem ap ≠ 0 ∧
    (env.cstring (env.wamr.addrAppToNative env.moduleInst (env.mem ap))).length < 4294967295 - 64

def ValidArgs (e : Addr) : Addr → List Piece → Prop
  | _, [] => True
  | ap, .directive d :: ps => d.conversion.Valid env e ap ∧ ValidArgs e (d.conversion.fetch env ap).2 ps
  | ap, _ :: ps => ValidArgs e ap ps

instance (e ap : Addr) : DecidablePred (Conversion.Valid env e ap)
  | .int _ m => by
    unfold Conversion.Valid
    infer_instance
  | .char => inferInstanceAs (Decidable (_ ≤ _))
  | .str => inferInstanceAs (Decidable (_ ∧ _ ∧ _ ∧ _))

instance ValidArgs.decidable (e : Addr) : ∀ ap ps, Decidable (ValidArgs env e ap ps)
  | _, [] => isTrue trivial
  | ap, .literal _ _ :: ps | ap, .percent :: ps => ValidArgs.decidable e ap ps
  | ap, .directive d :: ps =>
    have := ValidArgs.decidable e (d.conversion.fetch env ap).2 ps
    inferInstanceAs (Decidable (_ ∧ _))

/-- The native arguments of a directive without a modifier of the 32-bit types. -/
def Conversion.Native : Conversion → PrintfArg → Prop
  | int _ m, .int _ => m = .none ∨ m = .h
  | int _ m, .long _ => m.wide = true
  | char, .int _ => True
  | str, .str (some _) => True
  | _, _ => False

/-- The native `snprintf` renders such directives completely, as C does. -/
def NativeSnprintf : Prop :=
  ∀ (d : Directive) (arg : PrintfArg), d.conversion.Native arg → env.render d.text arg = some (d.render arg)

end

/-- The characters that the buffer of a directive has room for. -/
def PrintfArg.room : PrintfArg → Nat
  | .str (some s) => s.length + 63
  | _ => 63

/-- The rendering fits into the buffer and has no null character. -/
def Directive.Fits (d : Directive) (arg : PrintfArg) : Prop := (d.render arg).length ≤ arg.room ∧ nul ∉ d.render arg

/-- Every directive's rendering fits. -/
def AllFit (env : PrintfEnv) : Addr → List Piece → Prop
  | _, [] => True
  | ap, .directive d :: ps => d.Fits (d.conversion.fetch env ap).1 ∧ AllFit env (d.conversion.fetch env ap).2 ps
  | ap, _ :: ps => AllFit env ap ps

instance (d : Directive) (arg : PrintfArg) : Decidable (d.Fits arg) := inferInstanceAs (Decidable (_ ∧ _))

instance AllFit.decidable (env : PrintfEnv) : ∀ ap ps, Decidable (AllFit env ap ps)
  | _, [] => isTrue trivial
  | ap, .literal _ _ :: ps | ap, .percent :: ps => AllFit.decidable env ap ps
  | ap, .directive d :: ps =>
    have := AllFit.decidable env (d.conversion.fetch env ap).2 ps
    inferInstanceAs (Decidable (_ ∧ _))

/-- `_vprintf_wa` sends C's output, and `glue_snprintf` returns its length. -/
structure OutputsAsC (env : PrintfEnv) (ap : Addr) (ps : List Piece) : Prop where
  sent : outs (vprintfWa env (formatText ps) ap).1 = cOutput env ap ps
  returned : ∀ str size, (glueSnprintf env true str size (formatText ps) ap).2 = Int32.ofNat (cOutput env ap ps).length

/-! ## What a step sends -/

@[simp] theorem outs_nil : outs [] = [] := rfl

@[simp] theorem outs_append (l m : List PrintfEvent) : outs (l ++ m) = outs l ++ outs m := List.filterMap_append

@[simp] theorem outs_cons (ev : PrintfEvent) (l : List PrintfEvent) : outs (ev :: l) = ev.out?.toList ++ outs l := by
  rw [outs, List.filterMap_cons]
  cases ev.out? <;> rfl

@[simp] theorem outs_release (t : TempFormat) : outs t.release = [] := by
  unfold TempFormat.release
  cases t.heap <;> rfl

theorem outs_map_out (l : List Char) : outs (l.map .out) = l := by
  induction l with
  | nil => rfl
  | cons c l ih => simp [ih]

@[simp] theorem outs_removeModifier (buf : List Char) (k : Nat) : outs (removeModifier buf k).2 = [] := by
  unfold removeModifier
  simp only
  split_ifs <;> rfl

/-- What is sent of a rendering. -/
theorem outs_outputTempFormat {env : PrintfEnv} {buf text r : List Char} {arg : PrintfArg}
    (hbuf : buf.takeWhile (· ≠ nul) = text) (hr : env.render text arg = some r) (t : TempFormat) (size : Nat) :
    outs (outputTempFormat env t size buf arg) = (r.take (size - 1)).takeWhile (· ≠ nul) := by
  simp only [outputTempFormat, hbuf, hr, Option.getD_some]
  simp [outs_map_out]

/-! ## The format buffer -/

theorem takeWhile_rightpad {l : List Char} (h : nul ∉ l) (n : Nat) : (l.rightpad n nul).takeWhile (· ≠ nul) = l := by
  have hl : ∀ c ∈ l, decide (c ≠ nul) = true := fun c hc => decide_eq_true fun h' => h (h' ▸ hc)
  rw [List.rightpad, List.takeWhile_append_of_pos hl]
  cases n - l.length with
  | zero => simp
  | succ k => simp [List.replicate_succ]

/-- Removing a modifier moves the conversion character to its place. -/
theorem takeWhile_removeModifier {pre : List Char} {m c : Char} (hpre : nul ∉ pre) (hm : m = 'l' ∨ m = 'z' ∨ m = 't')
    (hc : c ≠ nul) (n : Nat) :
    (removeModifier ((pre ++ [m] ++ [c]).rightpad n nul) (pre ++ [m]).length).1.takeWhile (· ≠ nul) = pre ++ [c] := by
  have hpad : (pre ++ [m] ++ [c]).rightpad n nul = pre ++ m :: c :: List.replicate (n - (pre.length + 2)) nul := by
    simp [List.rightpad]
  have hlen : (pre ++ [m]).length = pre.length + 1 := by simp
  rw [hpad, hlen]
  have hfirst : ((pre ++ m :: c :: List.replicate (n - (pre.length + 2)) nul).getD (pre.length + 1 - 1) nul) = m := by
    simp [List.getD]
  have hsecond : ((pre ++ m :: c :: List.replicate (n - (pre.length + 2)) nul).getD (pre.length + 1) nul) = c := by
    simp [List.getD]
  unfold removeModifier
  simp only [hfirst, hsecond, if_pos hm]
  have hset : ((pre ++ m :: c :: List.replicate (n - (pre.length + 2)) nul).set (pre.length + 1 - 1) c).set
      (pre.length + 1) nul = pre ++ [c] ++ nul :: List.replicate (n - (pre.length + 2)) nul := by
    simp
  rw [hset]
  have hl : ∀ x ∈ pre ++ [c], decide (x ≠ nul) = true := by
    intro x hx
    rcases List.mem_append.1 hx with hx | hx
    · exact decide_eq_true fun h => hpre (h ▸ hx)
    · exact decide_eq_true (List.mem_singleton.1 hx ▸ hc)
  rw [List.takeWhile_append_of_pos hl]
  simp

/-! ## Directives -/

variable {env : PrintfEnv} {e : Addr} {s s' : PrintfState}

/-- From `s`, the loop over `cs` sends `l` and goes on in `s'`. -/
def Sends (env : PrintfEnv) (e : Addr) (s : PrintfState) (cs l : List Char) (s' : PrintfState) : Prop :=
  ∃ evs, outs evs = l ∧ ∀ fmt, vprintfLoop env e s (cs ++ fmt) =
    (evs ++ (vprintfLoop env e s' fmt).1, (vprintfLoop env e s' fmt).2)

theorem Sends.refl (s : PrintfState) : Sends env e s [] [] s := ⟨[], rfl, fun _ => rfl⟩

theorem Sends.trans {t : PrintfState} {cs ds l m : List Char} (h : Sends env e s cs l s') (h' : Sends env e s' ds m t) :
    Sends env e s (cs ++ ds) (l ++ m) t := by
  obtain ⟨evs, hl, hloop⟩ := h
  obtain ⟨evs', hm, hloop'⟩ := h'
  refine ⟨evs ++ evs', by rw [outs_append, hl, hm], fun fmt => ?_⟩
  rw [List.append_assoc, hloop, hloop', List.append_assoc]

theorem sends_step {c : Char} {evs : List PrintfEvent} (h : vprintfStep env e s c = (evs, .ok s')) :
    Sends env e s [c] (outs evs) s' := by
  refine ⟨evs, rfl, fun fmt => ?_⟩
  show vprintfLoop env e s (c :: fmt) = _
  rw [vprintfLoop, h]

/-- Flags, width and precision send nothing. -/
theorem sends_spec (hm : s.mightFormat = true) {cs : List Char} (h : ∀ c ∈ cs, charClass c = .flag) :
    Sends env e s cs [] { s with directive := s.directive ++ cs } := by
  induction cs generalizing s with
  | nil =>
    rw [List.append_nil]
    exact .refl s
  | cons c cs ih =>
    rw [List.forall_mem_cons] at h
    have hstep : vprintfStep env e s c = ([], .ok { s with directive := s.directive ++ [c] }) := by
      rw [vprintfStep_directive hm, h.1]
    have hrest := ih (s := { s with directive := s.directive ++ [c] }) hm h.2
    simp only [List.append_assoc, List.singleton_append] at hrest
    exact (sends_step hstep).trans hrest

/-- The modifier leaves its mark in `long_ctr`. -/
def Modifier.longCtr : Modifier → Nat
  | none | h => 0
  | l | z | t => 1
  | ll | j => 2

theorem sends_modifier (hm : s.mightFormat = true) (hl : s.longCtr = 0) (m : Modifier) :
    Sends env e s m.text [] { s with directive := s.directive ++ m.text, longCtr := m.longCtr } := by
  have hstep : ∀ (s : PrintfState) (c : Char) (k : Nat), s.mightFormat = true →
      (charClass c = .half ∧ k = s.longCtr ∨ charClass c = .size ∧ k = 1 ∨ charClass c = .max ∧ k = 2 ∨
        charClass c = .long ∧ k = s.longCtr + 1) →
      Sends env e s [c] [] { s with directive := s.directive ++ [c], longCtr := k } := by
    intro s c k hm hk
    have hnext : vprintfStep env e s c = ([], .ok { s with directive := s.directive ++ [c], longCtr := k }) := by
      rcases hk with ⟨hc, rfl⟩ | ⟨hc, rfl⟩ | ⟨hc, rfl⟩ | ⟨hc, rfl⟩ <;> rw [vprintfStep_directive hm, hc]
    exact sends_step hnext
  cases m with
  | none =>
    have hs : s = { s with directive := s.directive ++ Modifier.none.text, longCtr := 0 } := by
      simp [Modifier.text, ← hl]
    exact hs ▸ Sends.refl s
  | h => exact hstep s 'h' 0 hm (.inl ⟨rfl, hl.symm⟩)
  | l => exact hstep s 'l' 1 hm (.inr (.inr (.inr ⟨rfl, by rw [hl]⟩)))
  | z => exact hstep s 'z' 1 hm (.inr (.inl ⟨rfl, rfl⟩))
  | t => exact hstep s 't' 1 hm (.inr (.inl ⟨rfl, rfl⟩))
  | j => exact hstep s 'j' 2 hm (.inr (.inr (.inl ⟨rfl, rfl⟩)))
  | ll =>
    have hfirst := hstep s 'l' 1 hm (.inr (.inr (.inr ⟨rfl, by rw [hl]⟩)))
    have hsecond := hstep { s with directive := s.directive ++ ['l'], longCtr := 1 } 'l' 2 hm
      (.inr (.inr (.inr ⟨rfl, rfl⟩)))
    have h := hfirst.trans hsecond
    simp only [List.append_assoc, List.singleton_append] at h
    exact h

/-- With allocations that succeed the directive is copied into a buffer. -/
theorem prepareTempFormat_eq (halloc : ∀ id, env.mallocOk id = true) (c : Char) :
    ∃ evs s' n heap, prepareTempFormat env s c = (evs, s', some ⟨(s.directive ++ [c]).rightpad n nul, heap⟩) ∧
      outs evs = [] ∧ s'.longCtr = s.longCtr ∧ s'.ap = s.ap ∧ s'.directive = s.directive := by
  unfold prepareTempFormat
  simp only [halloc, if_true]
  split_ifs
  · exact ⟨_, _, _, _, rfl, rfl, rfl, rfl, rfl⟩
  · exact ⟨_, _, _, _, rfl, rfl, rfl, rfl, rfl⟩

/-- What the buffer of a directive lets through. -/
def Directive.sent (d : Directive) (arg : PrintfArg) : List Char := ((d.render arg).take arg.room).takeWhile (· ≠ nul)

theorem checkVaArg_of_toNat {ap : Addr} {n : Nat} (h : ap.toNat + n ≤ e.toNat) :
    checkVaArg e ap (UInt32.ofNat n) = true := by
  have hcheck := checkVaArg_of_le h
  rwa [UInt32.ofNat_toNat] at hcheck

/-- A state behind a directive, with the arguments going on at `ap`. -/
def PastDirective (s : PrintfState) (ap : Addr) : Prop := s.mightFormat = false ∧ s.ap = ap

/-- A conversion whose case sends `l`, whichever buffer it gets. -/
theorem sends_withTempFormat (halloc : ∀ id, env.mallocOk id = true) {c : Char} {l : List Char} {ap : Addr}
    {k : PrintfState → TempFormat → PrintfStep} (hstep : vprintfStep env e s c = withTempFormat env s c k)
    (hk : ∀ s' n heap, s'.longCtr = s.longCtr → s'.ap = s.ap → s'.directive = s.directive →
      ∃ evs s'', k s' ⟨(s.directive ++ [c]).rightpad n nul, heap⟩ = (evs, .ok s'') ∧ outs evs = l ∧
        PastDirective s'' ap) :
    ∃ s'', Sends env e s [c] l s'' ∧ PastDirective s'' ap := by
  obtain ⟨evs, s', n, heap, hprep, hevs, hl, ha, hd⟩ := prepareTempFormat_eq (s := s) halloc c
  obtain ⟨evs', s'', hcase, hout, hb⟩ := hk s' n heap hl ha hd
  refine ⟨s'', ?_, hb⟩
  have hnext : vprintfStep env e s c = (evs ++ evs', .ok s'') := by
    rw [hstep, withTempFormat, hprep]
    simp only [hcase]
  have hsend := sends_step hnext
  rwa [outs_append, hevs, hout, List.nil_append] at hsend

/-- A 4-byte argument, with the format `text` in the buffer in the end. -/
theorem intCase_word {t : TempFormat} {text r : List Char} (hlt : s.longCtr < 2) (hv : s.ap.toNat + 4 ≤ e.toNat)
    (htext : (if s.longCtr = 1 then removeModifier t.buf s.directive.length else (t.buf, [])).1.takeWhile
      (· ≠ nul) = text)
    (hr : env.render text (.int (env.mem s.ap)) = some r) :
    ∃ evs s', intCase env e s t = (evs, .ok s') ∧ outs evs = (r.take 63).takeWhile (· ≠ nul) ∧
      PastDirective s' (s.ap + 4) := by
  have hcheck : checkVaArg e s.ap 4 = true := checkVaArg_of_toNat hv
  have hws : outs (if s.longCtr = 1 then removeModifier t.buf s.directive.length else (t.buf, [])).2 = [] := by
    split_ifs
    · exact outs_removeModifier _ _
    · rfl
  unfold intCase
  rw [if_pos hlt, if_pos hcheck]
  generalize (if s.longCtr = 1 then removeModifier t.buf s.directive.length else (t.buf, [])) = bw at htext hws ⊢
  refine ⟨_, _, rfl, ?_, rfl, rfl⟩
  simp only [outs_cons, outs_append, hws, outs_outputTempFormat htext hr]
  rfl

theorem wideCase_long {t : TempFormat} {text r : List Char} (hv : (alignAp s.ap).toNat + 8 ≤ e.toNat)
    (htext : t.buf.takeWhile (· ≠ nul) = text)
    (hr : env.render text (.long (load64 env.mem (alignAp s.ap))) = some r) :
    ∃ evs s', wideCase env e s t .long = (evs, .ok s') ∧ outs evs = (r.take 63).takeWhile (· ≠ nul) ∧
      PastDirective s' (alignAp s.ap + 8) := by
  have hcheck : checkVaArg e (alignAp s.ap) 8 = true := checkVaArg_of_toNat hv
  unfold wideCase
  simp only [hcheck, if_true]
  refine ⟨_, _, rfl, ?_, rfl, rfl⟩
  rw [outs_cons, outs_outputTempFormat htext hr]
  rfl

theorem strCase_str (halloc : ∀ id, env.mallocOk id = true) {t : TempFormat} {text r : List Char}
    (hv : Conversion.str.Valid env e s.ap) (htext : t.buf.takeWhile (· ≠ nul) = text)
    (hr : env.render text (Conversion.str.fetch env s.ap).1 = some r) :
    ∃ evs s', strCase env e s t = (evs, .ok s') ∧
      outs evs = (r.take (Conversion.str.fetch env s.ap).1.room).takeWhile (· ≠ nul) ∧ PastDirective s' (s.ap + 4) := by
  obtain ⟨hfits, hvalid, hne, hlen⟩ := hv
  have hcheck : checkVaArg e s.ap 4 = true := checkVaArg_of_toNat hfits
  unfold strCase
  simp only [hcheck, hvalid, if_true]
  unfold strOutput
  simp only [hne, false_and, if_false, Nat.not_le.2 hlen, halloc, if_true]
  have hout := fun t' : TempFormat => outs_outputTempFormat htext hr t'
    ((env.cstring (env.wamr.addrAppToNative env.moduleInst (env.mem s.ap))).length + 64)
  split_ifs with hbig
  · refine ⟨_, _, rfl, ?_, rfl, rfl⟩
    simp only [outs_cons, outs_append, PrintfEvent.out?, Option.toList_none, List.nil_append, outs_nil, List.append_nil]
    exact hout t
  · refine ⟨_, _, rfl, ?_, rfl, rfl⟩
    simp only [outs_cons, PrintfEvent.out?, Option.toList_none, List.nil_append]
    exact hout t

/-- A directive with another conversion. -/
def Directive.withConversion (d : Directive) (c : Conversion) : Directive := { d with conversion := c }

theorem nul_notMem_spec (d : Directive) : nul ∉ '%' :: d.spec := by
  intro h
  rcases List.mem_cons.1 h with h | h
  · exact absurd h (by decide)
  · exact absurd (d.charClass_spec _ h) (by decide)

theorem nul_notMem_text (d : Directive) : nul ∉ d.text := by
  have hconv : ∀ c : Conversion, nul ∉ c.text := by
    intro c
    cases c with
    | int c m => cases c <;> cases m <;> decide
    | char => decide
    | str => decide
  intro h
  rcases List.mem_append.1 h with h | h
  · exact nul_notMem_spec d h
  · exact hconv _ h

theorem IntConversion.charClass (c : IntConversion) : LibcBypass.charClass c.char = .int := by cases c <;> rfl

theorem IntConversion.ne_nul (c : IntConversion) : c.char ≠ nul := by cases c <;> decide

section

variable {d : Directive} {c : IntConversion} {m : Modifier}

/-- An integer directive with a 4-byte argument that is left as it is. -/
theorem intCase_plain (hn : NativeSnprintf env) (hd : d.conversion = .int c m) (hm : m = .none ∨ m = .h)
    (hv : s.ap.toNat + 4 ≤ e.toNat) (hl : s.longCtr = 0) {t : TempFormat}
    (hbuf : t.buf.takeWhile (· ≠ nul) = d.text) :
    ∃ evs s', intCase env e s t = (evs, .ok s') ∧
      outs evs = ((d.render (.int (env.mem s.ap))).take 63).takeWhile (· ≠ nul) ∧ PastDirective s' (s.ap + 4) := by
  refine intCase_word (by omega) hv ?_ (hn d _ ?_)
  · rw [if_neg (by omega)]
    exact hbuf
  · rw [hd]
    exact hm

/-- One whose modifier is removed, which leaves a directive with the same rendering. -/
theorem intCase_removed (hn : NativeSnprintf env) (hd : d.conversion = .int c m) {x : Char} (hx : m.text = [x])
    (hxm : x = 'l' ∨ x = 'z' ∨ x = 't') (hh : m ≠ .h) (hv : s.ap.toNat + 4 ≤ e.toNat) (hl : s.longCtr = 1)
    (hdir : s.directive = '%' :: d.spec ++ m.text) (n : Nat) (heap : Option Nat) :
    ∃ evs s', intCase env e s ⟨(s.directive ++ [c.char]).rightpad n nul, heap⟩ = (evs, .ok s') ∧
      outs evs = ((d.render (.int (env.mem s.ap))).take 63).takeWhile (· ≠ nul) ∧ PastDirective s' (s.ap + 4) := by
  have hrender : (d.withConversion (.int c .none)).render (.int (env.mem s.ap)) = d.render (.int (env.mem s.ap)) := by
    show render d.spec (.int c .none) _ = render d.spec d.conversion _
    rw [hd]
    simp only [render, hh, reduceCtorEq]
  have hword : env.render (d.withConversion (.int c .none)).text (.int (env.mem s.ap)) =
      some (d.render (.int (env.mem s.ap))) := hrender ▸ hn _ _ (.inl rfl)
  refine intCase_word (by omega) hv ?_ hword
  rw [if_pos hl, hdir, hx]
  exact takeWhile_removeModifier (nul_notMem_spec d) hxm c.ne_nul n

/-- One with an 8-byte argument. -/
theorem intCase_wide (hn : NativeSnprintf env) (hd : d.conversion = .int c m) (hw : m.wide = true)
    (hv : (alignAp s.ap).toNat + 8 ≤ e.toNat) (hl : s.longCtr = 2) {t : TempFormat}
    (hbuf : t.buf.takeWhile (· ≠ nul) = d.text) :
    ∃ evs s', intCase env e s t = (evs, .ok s') ∧
      outs evs = ((d.render (.long (load64 env.mem (alignAp s.ap)))).take 63).takeWhile (· ≠ nul) ∧
        PastDirective s' (alignAp s.ap + 8) := by
  unfold intCase
  rw [if_neg (by omega)]
  refine wideCase_long hv hbuf (hn d _ ?_)
  rw [hd]
  exact hw

/-- An integer conversion, with any modifier. -/
theorem intCase_int (hn : NativeSnprintf env) (hd : d.conversion = .int c m) (hv : d.conversion.Valid env e s.ap)
    (hl : s.longCtr = m.longCtr) (hdir : s.directive = '%' :: d.spec ++ m.text) (n : Nat) (heap : Option Nat) :
    ∃ evs s', intCase env e s ⟨(s.directive ++ [c.char]).rightpad n nul, heap⟩ = (evs, .ok s') ∧
      outs evs = d.sent (d.conversion.fetch env s.ap).1 ∧ PastDirective s' (d.conversion.fetch env s.ap).2 := by
  have htext : s.directive ++ [c.char] = d.text := by
    rw [hdir, Directive.text, hd, Conversion.text, List.append_assoc]
  have hbuf : ((s.directive ++ [c.char]).rightpad n nul).takeWhile (· ≠ nul) = d.text := by
    rw [htext]
    exact takeWhile_rightpad (nul_notMem_text d) n
  unfold Directive.sent
  rw [hd] at hv ⊢
  cases m with
  | none => exact intCase_plain hn hd (.inl rfl) hv hl hbuf
  | h => exact intCase_plain hn hd (.inr rfl) hv hl hbuf
  | l => exact intCase_removed hn hd rfl (.inl rfl) (by decide) hv hl hdir n heap
  | z => exact intCase_removed hn hd rfl (.inr (.inl rfl)) (by decide) hv hl hdir n heap
  | t => exact intCase_removed hn hd rfl (.inr (.inr rfl)) (by decide) hv hl hdir n heap
  | ll => exact intCase_wide hn hd rfl hv hl hbuf
  | j => exact intCase_wide hn hd rfl hv hl hbuf

end

/-- A directive sends what its buffer lets through, and fetches its argument. -/
theorem sends_directive (hn : NativeSnprintf env) (halloc : ∀ id, env.mallocOk id = true) {d : Directive} {ap : Addr}
    (hb : PastDirective s ap) (hv : d.conversion.Valid env e ap) :
    ∃ s', Sends env e s d.text (d.sent (d.conversion.fetch env ap).1) s' ∧
      PastDirective s' (d.conversion.fetch env ap).2 := by
  obtain ⟨hm, rfl⟩ := hb
  let s₁ : PrintfState := { s with mightFormat := true, longCtr := 0, directive := ['%'] }
  let s₂ : PrintfState := { s₁ with directive := '%' :: d.spec }
  have hpercent : Sends env e s ['%'] [] s₁ := by
    exact sends_step (vprintfStep_percent hm)
  have hspec : Sends env e s ('%' :: d.spec) [] s₂ := hpercent.trans (sends_spec rfl d.charClass_spec)
  cases hd : d.conversion with
  | int c m =>
    let s₃ : PrintfState := { s₂ with directive := '%' :: d.spec ++ m.text, longCtr := m.longCtr }
    have hmod : Sends env e s ('%' :: d.spec ++ m.text) [] s₃ := hspec.trans (sends_modifier rfl rfl m)
    have hstep : vprintfStep env e s₃ c.char = withTempFormat env s₃ c.char (intCase env e) := by
      rw [vprintfStep_directive rfl, c.charClass]
    obtain ⟨s', hsend, hb⟩ := sends_withTempFormat halloc hstep fun s' n heap hl ha hdir => by
      have hcase := intCase_int (s := s') hn hd (by rw [ha]; exact hv) hl hdir n heap
      rwa [hdir, ha] at hcase
    rw [hd] at hsend hb
    refine ⟨s', ?_, hb⟩
    have hall := hmod.trans hsend
    rw [List.append_assoc] at hall
    rw [Directive.text, hd]
    exact hall
  | char =>
    have htext : s₂.directive ++ ['c'] = d.text := by rw [Directive.text, hd]; rfl
    have hstep : vprintfStep env e s₂ 'c' = withTempFormat env s₂ 'c' (intCase env e) := rfl
    have hcase : ∀ s' n heap, s'.longCtr = s₂.longCtr → s'.ap = s₂.ap → s'.directive = s₂.directive →
        ∃ evs s'', intCase env e s' ⟨(s₂.directive ++ ['c']).rightpad n nul, heap⟩ = (evs, .ok s'') ∧
          outs evs = d.sent (.int (env.mem s.ap)) ∧ PastDirective s'' (s.ap + 4) := by
      intro s' n heap hl ha _
      have hap : s'.ap = s.ap := ha
      have h0 : s'.longCtr = 0 := hl
      rw [hd] at hv
      rw [htext, ← hap]
      refine intCase_word (by omega) (by rw [hap]; exact hv) ?_ (hn d _ (by rw [hd]; trivial))
      rw [if_neg (by omega)]
      exact takeWhile_rightpad (nul_notMem_text d) n
    obtain ⟨s', hsend, hb⟩ := sends_withTempFormat halloc hstep hcase
    refine ⟨s', ?_, hb⟩
    rw [← htext]
    exact hspec.trans hsend
  | str =>
    have htext : s₂.directive ++ ['s'] = d.text := by rw [Directive.text, hd]; rfl
    have hstep : vprintfStep env e s₂ 's' = withTempFormat env s₂ 's' (strCase env e) := rfl
    have hcase : ∀ s' n heap, s'.longCtr = s₂.longCtr → s'.ap = s₂.ap → s'.directive = s₂.directive →
        ∃ evs s'', strCase env e s' ⟨(s₂.directive ++ ['s']).rightpad n nul, heap⟩ = (evs, .ok s'') ∧
          outs evs = d.sent (Conversion.str.fetch env s.ap).1 ∧ PastDirective s'' (s.ap + 4) := by
      intro s' n heap _ ha _
      have hap : s'.ap = s.ap := ha
      rw [hd] at hv
      rw [htext, ← hap]
      refine strCase_str halloc (by rw [hap]; exact hv) ?_ (hn d _ (by rw [hd]; trivial))
      exact takeWhile_rightpad (nul_notMem_text d) n
    obtain ⟨s', hsend, hb⟩ := sends_withTempFormat halloc hstep hcase
    refine ⟨s', ?_, hb⟩
    rw [← htext]
    exact hspec.trans hsend

/-! ## Formats -/

/-- The literals and what the buffers let through. -/
def sentOutput (env : PrintfEnv) : Addr → List Piece → List Char
  | _, [] => []
  | ap, .literal c _ :: ps => c :: sentOutput env ap ps
  | ap, .percent :: ps => '%' :: sentOutput env ap ps
  | ap, .directive d :: ps => d.sent (d.conversion.fetch env ap).1 ++ sentOutput env (d.conversion.fetch env ap).2 ps

theorem Sends.loop {cs l : List Char} (h : Sends env e s cs l s') (fmt : List Char) :
    outs (vprintfLoop env e s (cs ++ fmt)).1 = l ++ outs (vprintfLoop env e s' fmt).1 ∧
      (vprintfLoop env e s (cs ++ fmt)).2 = (vprintfLoop env e s' fmt).2 := by
  obtain ⟨evs, hl, hloop⟩ := h
  rw [hloop, outs_append, hl]
  exact ⟨rfl, rfl⟩

/-- The loop over a format sends its pieces and comes to the end. -/
theorem vprintfLoop_pieces (hn : NativeSnprintf env) (halloc : ∀ id, env.mallocOk id = true) {ap : Addr}
    {ps : List Piece} (hb : PastDirective s ap) (hv : ValidArgs env e ap ps) :
    outs (vprintfLoop env e s (formatText ps)).1 = sentOutput env ap ps ∧
      (vprintfLoop env e s (formatText ps)).2 = .done := by
  induction ps generalizing s ap with
  | nil => exact ⟨rfl, rfl⟩
  | cons p ps ih =>
    have hrest : ∀ {l : List Char} {s' : PrintfState} {q : Addr}, Sends env e s p.text l s' → PastDirective s' q →
        ValidArgs env e q ps → outs (vprintfLoop env e s (formatText (p :: ps))).1 = l ++ sentOutput env q ps ∧
          (vprintfLoop env e s (formatText (p :: ps))).2 = .done := by
      intro l s' q hsend hb' hv'
      obtain ⟨hout, hend⟩ := hsend.loop (formatText ps)
      obtain ⟨hout', hend'⟩ := ih hb' hv'
      rw [hout'] at hout
      exact ⟨hout, hend.trans hend'⟩
    cases p with
    | literal c ok =>
      exact hrest (sends_step (vprintfStep_literal hb.1 ok.1)) hb hv
    | percent =>
      let s₁ : PrintfState := { s with mightFormat := true, longCtr := 0, directive := ['%'] }
      have hsecond : vprintfStep env e s₁ '%' = ([.out '%'], .ok s₁.leave) := rfl
      exact hrest ((sends_step (vprintfStep_percent hb.1)).trans (sends_step hsecond)) ⟨rfl, hb.2⟩ hv
    | directive d =>
      obtain ⟨s', hsend, hb'⟩ := sends_directive hn halloc hb hv.1
      exact hrest hsend hb' hv.2

theorem length_sent_le (d : Directive) (arg : PrintfArg) : (d.sent arg).length ≤ (d.render arg).length :=
  Nat.le_trans (List.takeWhile_sublist _).length_le (List.take_sublist _ _).length_le

/-- The buffer lets a rendering through exactly when it fits. -/
theorem sent_eq_iff (d : Directive) (arg : PrintfArg) : d.sent arg = d.render arg ↔ d.Fits arg := by
  unfold Directive.sent Directive.Fits
  generalize d.render arg = r
  constructor
  · intro h
    have hle : (r.take arg.room).length ≤ arg.room := List.length_take_le _ _
    have hlen : r.length ≤ (r.take arg.room).length := by
      rw [← congrArg List.length h]
      exact (List.takeWhile_sublist _).length_le
    refine ⟨Nat.le_trans hlen hle, fun hnul => ?_⟩
    rw [← h] at hnul
    simpa using List.mem_takeWhile_imp hnul
  · rintro ⟨hlen, hnul⟩
    rw [List.take_of_length_le hlen, List.takeWhile_eq_self_iff]
    exact fun c hc => decide_eq_true fun h => hnul (h ▸ hc)

/-- What is sent is no longer than C's output, and is C's output exactly when everything fits. -/
theorem sentOutput_eq_iff (env : PrintfEnv) (ap : Addr) (ps : List Piece) :
    (sentOutput env ap ps).length ≤ (cOutput env ap ps).length ∧
      (sentOutput env ap ps = cOutput env ap ps ↔ AllFit env ap ps) := by
  induction ps generalizing ap with
  | nil => exact ⟨Nat.le_refl _, iff_of_true rfl trivial⟩
  | cons p ps ih =>
    cases p with
    | literal c ok =>
      obtain ⟨hle, hiff⟩ := ih ap
      exact ⟨Nat.succ_le_succ hle, by simpa [sentOutput, cOutput, AllFit] using hiff⟩
    | percent =>
      obtain ⟨hle, hiff⟩ := ih ap
      exact ⟨Nat.succ_le_succ hle, by simpa [sentOutput, cOutput, AllFit] using hiff⟩
    | directive d =>
      obtain ⟨hle, hiff⟩ := ih (d.conversion.fetch env ap).2
      have hd := length_sent_le d (d.conversion.fetch env ap).1
      simp only [sentOutput, cOutput, AllFit, List.length_append]
      refine ⟨Nat.add_le_add hd hle, ?_⟩
      rw [← hiff, ← sent_eq_iff]
      constructor
      · intro h
        have hlen := congrArg List.length h
        simp only [List.length_append] at hlen
        exact List.append_inj h (by omega)
      · rintro ⟨hfirst, hrest⟩
        rw [hfirst, hrest]

theorem count_foldl (l : List Char) (ctx : StrContext) :
    (l.foldl sprintfOut ctx).count = ctx.count + UInt32.ofNat l.length := by
  induction l generalizing ctx with
  | nil => simp
  | cons c l ih =>
    have hcount : (sprintfOut ctx c).count = ctx.count + 1 := by
      unfold sprintfOut
      split_ifs <;> rfl
    have hsucc : UInt32.ofNat (l.length + 1) = UInt32.ofNat l.length + 1 := UInt32.ofNat_add _ _
    rw [List.foldl_cons, ih, hcount, List.length_cons, hsucc]
    grind

/-- `_vprintf_wa` sends C's output for a format, and `glue_snprintf` returns its length, exactly when the
rendering of every directive fits into its buffer and has no null character. -/
theorem outputsAsC_iff_fit {ap : Addr} {ps : List Piece} (hn : NativeSnprintf env)
    (halloc : ∀ id, env.mallocOk id = true) (he : env.nativeEndAddr = some e) (hv : ValidArgs env e ap ps) :
    OutputsAsC env ap ps ↔ AllFit env ap ps := by
  obtain ⟨hout, hend⟩ := vprintfLoop_pieces (s := ⟨false, 0, [], ap, 0⟩) hn halloc ⟨rfl, rfl⟩ hv
  have hwa : vprintfWa env (formatText ps) ap = vprintfLoop env e ⟨false, 0, [], ap, 0⟩ (formatText ps) := by
    rw [vprintfWa, he]
  rw [← hwa] at hout hend
  rw [← (sentOutput_eq_iff env ap ps).2]
  constructor
  · intro h
    rw [← hout, h.sent]
  · intro h
    refine ⟨hout.trans h, fun str size => ?_⟩
    unfold glueSnprintf
    simp only [if_true, hend, hout, count_foldl, h, UInt32.zero_add]
    rfl

/-- An environment with `words` at `0x2000`, one string, and the native `snprintf`. -/
def outputEnv (words : List UInt32) : PrintfEnv where
  moduleInst := 1
  wamr := .linear id fun _ => 0x1000
  nativeEndAddr := some 0x3000
  validateAppStrAddr _ := true
  mem a := words.getD ((a - 0x2000) / 4).toNat 0
  cstring _ := "wasm".toList
  mallocOk _ := true
  render := cSnprintf

theorem nativeSnprintf_outputEnv (words : List UInt32) : NativeSnprintf (outputEnv words) :=
  fun d arg _ => cSnprintf_text d arg

/-- `%d` with a width. -/
def decimal (width : List Char) (h : ∀ c ∈ width, c ∈ digitChars) (m : Modifier) : Directive where
  flags := []
  width := width
  precision := none
  conversion := .int .d m
  flags_mem := List.forall_mem_nil _
  width_mem := h
  precision_mem := fun ds hds => by cases hds

/-- `%6s` -/
def paddedString : Directive where
  flags := []
  width := ['6']
  precision := none
  conversion := .str
  flags_mem := List.forall_mem_nil _
  width_mem := by simp [digitChars]
  precision_mem := fun ds hds => by cases hds

/-- `"=%63d%%%ld%6s"` -/
def fittingFormat : List Piece :=
  [.literal '=' (by decide), .directive (decimal ['6', '3'] (by simp [digitChars]) .none), .percent,
    .directive (decimal [] (List.forall_mem_nil _) .l), .directive paddedString]

theorem outputsAsC_fittingFormat : OutputsAsC (outputEnv [5, 7, 0x100]) 0x2000 fittingFormat := by
  have hv : ValidArgs (outputEnv [5, 7, 0x100]) 0x3000 0x2000 fittingFormat := by decide
  exact (outputsAsC_iff_fit (nativeSnprintf_outputEnv _) (fun _ => rfl) rfl hv).2 (by decide)

/-- `"%64d"` -/
def wideFormat : List Piece := [.directive (decimal ['6', '4'] (by simp [digitChars]) .none)]

/-- The last character of a rendering of 64 is lost. -/
theorem wide_rendering_cut :
    ¬ ∀ (env : PrintfEnv) (e ap : Addr) (ps : List Piece), NativeSnprintf env → (∀ id, env.mallocOk id = true) →
      env.nativeEndAddr = some e → ValidArgs env e ap ps → OutputsAsC env ap ps := by
  intro h
  have hv : ValidArgs (outputEnv [5]) 0x3000 0x2000 wideFormat := by decide
  have hout := (h (outputEnv [5]) 0x3000 0x2000 wideFormat (nativeSnprintf_outputEnv _) (fun _ => rfl) rfl hv).sent
  exact absurd hout (by decide)

end VelaWasm.LibcBypass
