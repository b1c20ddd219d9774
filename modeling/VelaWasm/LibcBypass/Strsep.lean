/-
`glue_strsep` and the tokens that an application gets from it, beside a native program that calls `strsep`
on the same string. The letters of its signature have both pointers translated before it is called; it
translates them once more, and what `strsep` leaves in the variable it does not translate back.
-/
import VelaWasm.Dbus.ArgsRoundTrip
import VelaWasm.Lib.CString
import VelaWasm.Lib.Run
import VelaWasm.Wamr

namespace VelaWasm.LibcBypass

open VelaWasm.CString VelaWasm.Dbus VelaWasm.Run

/-! ## The call -/

/-- Memory with its pointer variables and its characters, none of which overlap. -/
@[ext]
structure Strings where
  words : Mem
  bytes : Addr → UInt8

/-- The characters of the string at `p` in front of the first one of the string at `delim`. -/
def tokenText (b : Addr → UInt8) (delim p : Addr) : List UInt8 := (text b p).takeWhile (· ∉ text b delim)

/-- The character behind the token at `p` is a delimiter, not the end of the string. -/
def Delimited (b : Addr → UInt8) (delim p : Addr) : Prop := (tokenText b delim p).length < (text b p).length

instance (b : Addr → UInt8) (delim p : Addr) : Decidable (Delimited b delim p) :=
  inferInstanceAs (Decidable (_ < _))

/-- What remains of the string at `p` behind its first token. -/
def remaining (b : Addr → UInt8) (delim p : Addr) : Addr :=
  if Delimited b delim p then p + UInt32.ofNat (tokenText b delim p).length + 1 else null

/-- The characters with the token at `p` ended. -/
def endToken (b : Addr → UInt8) (delim p : Addr) : Addr → UInt8 :=
  if Delimited b delim p then Function.update b (p + UInt32.ofNat (tokenText b delim p).length) 0 else b

/-- `strsep` -/
def strsep (stringp delim : Addr) (s : Strings) : Addr × Strings :=
  let token := s.words stringp
  if token = null then (null, s)
  else (token, ⟨Function.update s.words stringp (remaining s.bytes delim token), endToken s.bytes delim token⟩)

/-- `glue_strsep` -/
def glueStrsep (W : Wamr) (env parm1 parm2 : Addr) (s : Strings) : Addr × Strings :=
  let s := if s.words parm1 ≠ null then { s with words := translateAt W env true parm1 s.words } else s
  let (token, s) := strsep (translate W env true parm1) (translate W env true parm2) s
  (translate W env false token, s)

/-! ## An application and a native program -/

/-- The memory of the application and that of a native program, and what each has got: the tokens and their
texts. -/
structure Tokenising where
  app : Strings
  native : Strings
  appTokens : List (Addr × List UInt8)
  nativeTokens : List (Addr × List UInt8)

/-- The characters at the token that a call has returned. -/
def returnedText (b : Addr → UInt8) (token : Addr) : List UInt8 := if token = null then [] else text b token

section

variable (W : Wamr) (env parm1 : Addr)

/-- Both call with the delimiters at `delim`, until the application has got NULL. The application reads its
token through the address that it got. -/
def tokeniseStep (s : Tokenising) (delim : Addr) : Option Tokenising :=
  if null ∈ s.appTokens.map Prod.fst then none
  else
    let (ret, app) := glueStrsep W env parm1 delim s.app
    let (token, native) := strsep parm1 delim s.native
    some
      { app, native,
        appTokens := s.appTokens ++ [(ret, returnedText app.bytes (translate W env true ret))]
        nativeTokens := s.nativeTokens ++ [(token, returnedText native.bytes token)] }

/-- The variable holds the string at `str`, by the address that each of the two programs has for it. -/
def Tokenising.start (words : Mem) (bytes : Addr → UInt8) (str : Addr) : Tokenising where
  app := ⟨Function.update words parm1 (translate W env false str), bytes⟩
  native := ⟨Function.update words parm1 str, bytes⟩
  appTokens := []
  nativeTokens := []

/-- The application has got the tokens of the native program at their application addresses, and its variable
holds the application address of what remains. -/
def Tokenising.Agrees (s : Tokenising) : Prop :=
  s.appTokens = s.nativeTokens.map (Prod.map (translate W env false) id) ∧
    s.app.words parm1 = translate W env false (s.native.words parm1)

/-- The second translations and the missing one make no difference to the call: it finds the string, the same
delimiters end its token, and what remains is at an address that needs no translation. -/
def CallUndisturbed (s : Tokenising) (delim : Addr) : Prop :=
  let var := translate W env true parm1
  let str := translate W env true (s.app.words parm1)
  (var = parm1 ∨ s.app.words var = str) ∧
    (s.app.words parm1 ≠ null →
      tokenText s.app.bytes (translate W env true delim) str = tokenText s.app.bytes delim str ∧
      (if var = parm1 then remaining s.app.bytes delim str else str) =
        translate W env false (remaining s.app.bytes delim str))

instance (s : Tokenising) (delim : Addr) : Decidable (CallUndisturbed W env parm1 s delim) :=
  inferInstanceAs (Decidable ((_ ∨ _) ∧ (_ → _ ∧ _)))

end

/-! ## What a call leaves -/

variable {W : Wamr} {env parm1 delim : Addr} {s t : Tokenising} {m : Strings} {b : Addr → UInt8} {p : Addr}

/-- The text that stands at a token once it is ended. -/
theorem text_endToken : text (endToken b delim p) p = tokenText b delim p := by
  have hpre : tokenText b delim p <+: text b p := List.takeWhile_prefix _
  unfold endToken
  split_ifs with h
  · rw [text_cut h]
    exact (List.prefix_iff_eq_take.1 hpre).symm
  · exact (hpre.eq_of_length (Nat.le_antisymm hpre.length_le (Nat.le_of_not_lt h))).symm

theorem strsep_of_null (h : m.words p = null) : strsep p delim m = (null, m) := if_pos h

theorem strsep_of_ne (h : m.words p ≠ null) : strsep p delim m =
    (m.words p, ⟨Function.update m.words p (remaining m.bytes delim (m.words p)),
      endToken m.bytes delim (m.words p)⟩) := if_neg h

/-- `strsep` returns what the variable held. -/
theorem strsep_fst : (strsep p delim m).1 = m.words p := by
  by_cases h : m.words p = null
  · rw [strsep_of_null h, h]
  · rw [strsep_of_ne h]

/-- A token that ends at the same place leaves the same. -/
theorem left_congr {d e : Addr} (h : tokenText b d p = tokenText b e p) :
    remaining b d p = remaining b e p ∧ endToken b d p = endToken b e p := by
  have hd : Delimited b d p ↔ Delimited b e p := by rw [Delimited, Delimited, h]
  constructor
  · rw [remaining, remaining, h]
    exact if_congr hd rfl rfl
  · rw [endToken, endToken, h]
    exact if_congr hd rfl rfl

/-! ## One call of each program -/

/-- The memory `strsep` is called on. -/
def translated (W : Wamr) (env parm1 : Addr) (m : Strings) : Strings :=
  if m.words parm1 ≠ null then { m with words := translateAt W env true parm1 m.words } else m

theorem glueStrsep_eq : glueStrsep W env parm1 delim m =
    (translate W env false ((translated W env parm1 m).words (translate W env true parm1)),
      (strsep (translate W env true parm1) (translate W env true delim) (translated W env parm1 m)).2) := by
  have hfst : (strsep (translate W env true parm1) (translate W env true delim) (translated W env parm1 m)).1 =
      (translated W env parm1 m).words (translate W env true parm1) := strsep_fst
  rw [← hfst]
  rfl

/-- The variable after a store where its address translated once more points. -/
theorem update_translated {w : Mem} {r : Addr} :
    Function.update (translateAt W env true p w) (translate W env true p) r p =
      if translate W env true p = p then r else translate W env true (w p) := by
  by_cases hp : translate W env true p = p
  · rw [hp, Function.update_self, if_pos rfl]
  · rw [Function.update_of_ne (Ne.symm hp), if_neg hp, translateAt, Function.update_self]

/-- A step appends what each program gets. -/
theorem tokeniseStep_eq (h : tokeniseStep W env parm1 s delim = some t) :
    t.app = (glueStrsep W env parm1 delim s.app).2 ∧ t.native = (strsep parm1 delim s.native).2 ∧
      t.appTokens = s.appTokens ++ [((glueStrsep W env parm1 delim s.app).1,
        returnedText (glueStrsep W env parm1 delim s.app).2.bytes
          (translate W env true (glueStrsep W env parm1 delim s.app).1))] ∧
      t.nativeTokens = s.nativeTokens ++ [((strsep parm1 delim s.native).1,
        returnedText (strsep parm1 delim s.native).2.bytes (strsep parm1 delim s.native).1)] := by
  unfold tokeniseStep at h
  split_ifs at h
  cases h
  exact ⟨rfl, rfl, rfl, rfl⟩

/-- The programs agree before the call, in their characters too. -/
structure TokenInv (W : Wamr) (env parm1 : Addr) (s : Tokenising) : Prop where
  agrees : s.Agrees W env parm1
  bytes : s.app.bytes = s.native.bytes

/-- They agree after it when the call returns the native token, with the same text, and leaves the application
address of what remains. -/
theorem agrees_iff (hs : TokenInv W env parm1 s) (h : tokeniseStep W env parm1 s delim = some t) :
    t.Agrees W env parm1 ↔
      (glueStrsep W env parm1 delim s.app).1 = translate W env false (strsep parm1 delim s.native).1 ∧
      returnedText (glueStrsep W env parm1 delim s.app).2.bytes
          (translate W env true (glueStrsep W env parm1 delim s.app).1) =
        returnedText (strsep parm1 delim s.native).2.bytes (strsep parm1 delim s.native).1 ∧
      (glueStrsep W env parm1 delim s.app).2.words parm1 =
        translate W env false ((strsep parm1 delim s.native).2.words parm1) := by
  obtain ⟨happ, hnative, htokens, hnatives⟩ := tokeniseStep_eq h
  rw [Tokenising.Agrees, happ, hnative, htokens, hnatives, List.map_append, hs.agrees.1, List.append_cancel_left_eq,
    List.map_singleton, List.singleton_inj, Prod.map_apply, Prod.mk.injEq, and_assoc]
  rfl

section

variable (hinv : Function.LeftInverse (translate W env true) (translate W env false))
  (hnull : translate W env false null = null)

include hinv hnull

theorem toNative_null : translate W env true null = null := by
  have := hinv null
  rwa [hnull] at this

theorem toApp_eq_null (h : translate W env false p = null) : p = null := by
  rw [← hinv p, h, toNative_null hinv hnull]

/-- A call when nothing remains. -/
theorem agrees_iff_of_null (hs : TokenInv W env parm1 s) (h : tokeniseStep W env parm1 s delim = some t)
    (hrest : s.native.words parm1 = null) :
    (t.Agrees W env parm1 ↔ CallUndisturbed W env parm1 s delim) ∧
      (CallUndisturbed W env parm1 s delim → t.app.bytes = t.native.bytes) := by
  have hvar : s.app.words parm1 = null := by rw [hs.agrees.2, hrest, hnull]
  have hm : translated W env parm1 s.app = s.app := if_neg (not_not_intro hvar)
  have hund : CallUndisturbed W env parm1 s delim ↔ s.app.words (translate W env true parm1) = null := by
    simp only [CallUndisturbed, hvar, toNative_null hinv hnull, ne_eq, not_true_eq_false, false_imp_iff, and_true]
    exact or_iff_right_of_imp fun hp => by rw [hp, hvar]
  rw [agrees_iff hs h, hund, strsep_of_null hrest, glueStrsep_eq, hm]
  by_cases hq : s.app.words (translate W env true parm1) = null
  · obtain ⟨happ, hnative, -⟩ := tokeniseStep_eq h
    rw [glueStrsep_eq, hm] at happ
    rw [strsep_of_null hq] at happ ⊢
    rw [strsep_of_null hrest] at hnative
    refine ⟨iff_of_true ⟨by rw [hq], ?_, by rw [hvar, hrest, hnull]⟩ hq, fun _ => by rw [happ, hnative, hs.bytes]⟩
    rw [hq, hnull, toNative_null hinv hnull]
    rfl
  · refine ⟨iff_of_false (fun ha => hq ?_) hq, fun hp => absurd hp hq⟩
    exact toApp_eq_null hinv hnull (ha.1.trans hnull)

/-- The string that `strsep` finds is the one that the variable held. -/
theorem found_iff (hs : TokenInv W env parm1 s) (hrest : s.native.words parm1 ≠ null) :
    (translated W env parm1 s.app).words (translate W env true parm1) = s.native.words parm1 ↔
      translate W env true parm1 = parm1 ∨
        s.app.words (translate W env true parm1) = translate W env true (s.app.words parm1) := by
  have hvar : s.app.words parm1 ≠ null := by
    rw [hs.agrees.2]
    exact fun h => hrest (toApp_eq_null hinv hnull h)
  have hstr : translate W env true (s.app.words parm1) = s.native.words parm1 := by rw [hs.agrees.2, hinv]
  have hm : (translated W env parm1 s.app).words = translateAt W env true parm1 s.app.words := by
    rw [translated, if_pos hvar]
  rw [hm, hstr]
  by_cases hp : translate W env true parm1 = parm1
  · rw [hp]
    exact iff_of_true (by rw [translateAt, Function.update_self, hstr]) (.inl rfl)
  · rw [translateAt_of_ne hp, or_iff_right hp]

/-- A call when a string remains. -/
theorem agrees_iff_of_ne (hs : TokenInv W env parm1 s) (h : tokeniseStep W env parm1 s delim = some t)
    (hrest : s.native.words parm1 ≠ null) :
    (t.Agrees W env parm1 ↔ CallUndisturbed W env parm1 s delim) ∧
      (CallUndisturbed W env parm1 s delim → t.app.bytes = t.native.bytes) := by
  have hvar : s.app.words parm1 ≠ null := by
    rw [hs.agrees.2]
    exact fun h => hrest (toApp_eq_null hinv hnull h)
  have hstr : translate W env true (s.app.words parm1) = s.native.words parm1 := by rw [hs.agrees.2, hinv]
  have hm : translated W env parm1 s.app =
      ⟨translateAt W env true parm1 s.app.words, s.native.bytes⟩ := by
    rw [translated, if_pos hvar, ← hs.bytes]
  have hund : CallUndisturbed W env parm1 s delim ↔
      (translated W env parm1 s.app).words (translate W env true parm1) = s.native.words parm1 ∧
      tokenText s.native.bytes (translate W env true delim) (s.native.words parm1) =
        tokenText s.native.bytes delim (s.native.words parm1) ∧
      (if translate W env true parm1 = parm1 then remaining s.native.bytes delim (s.native.words parm1)
        else s.native.words parm1) =
        translate W env false (remaining s.native.bytes delim (s.native.words parm1)) := by
    rw [found_iff hinv hnull hs hrest, CallUndisturbed, hstr, hs.bytes, imp_iff_right hvar]
  rw [agrees_iff hs h, hund, glueStrsep_eq, strsep_fst]
  by_cases hq : (translated W env parm1 s.app).words (translate W env true parm1) = s.native.words parm1
  swap
  · exact ⟨iff_of_false (fun ha => hq (hinv.injective ha.1)) fun ha => hq ha.1, fun ha => absurd ha.1 hq⟩
  have happ : (strsep (translate W env true parm1) (translate W env true delim) (translated W env parm1 s.app)).2 =
      ⟨Function.update (translateAt W env true parm1 s.app.words) (translate W env true parm1)
        (remaining s.native.bytes (translate W env true delim) (s.native.words parm1)),
        endToken s.native.bytes (translate W env true delim) (s.native.words parm1)⟩ := by
    rw [strsep_of_ne (by rwa [hq]), hq, hm]
  constructor
  · rw [happ, strsep_of_ne hrest, hq, hinv]
    simp only [returnedText, if_neg hrest, text_endToken, Function.update_self, true_and]
    refine and_congr_right fun htext => ?_
    rw [update_translated, hstr, (left_congr htext).1]
  · rintro ⟨-, htext, -⟩
    obtain ⟨happ', hnative, -⟩ := tokeniseStep_eq h
    rw [happ', hnative, glueStrsep_eq, happ, strsep_of_ne hrest]
    exact (left_congr htext).2

/-- A call keeps the programs agreed exactly when it is undisturbed. -/
theorem agrees_step (hs : TokenInv W env parm1 s) (h : tokeniseStep W env parm1 s delim = some t) :
    (t.Agrees W env parm1 ↔ CallUndisturbed W env parm1 s delim) ∧
      (CallUndisturbed W env parm1 s delim → TokenInv W env parm1 t) := by
  have hstep : (t.Agrees W env parm1 ↔ CallUndisturbed W env parm1 s delim) ∧
      (CallUndisturbed W env parm1 s delim → t.app.bytes = t.native.bytes) := by
    by_cases hrest : s.native.words parm1 = null
    · exact agrees_iff_of_null hinv hnull hs h hrest
    · exact agrees_iff_of_ne hinv hnull hs h hrest
  exact ⟨hstep.1, fun hok => ⟨hstep.1.2 hok, hstep.2 hok⟩⟩

/-- An application that calls `glue_strsep` until it gets NULL, whatever the delimiters of each call, is with
the native program all along exactly when no call is disturbed. -/
theorem tokenising_agrees_iff {words : Mem} {str : Addr} {delims : List Addr}
    (h : exec (tokeniseStep W env parm1) (Tokenising.start W env parm1 words b str) delims = some t) :
    Along (tokeniseStep W env parm1) (Tokenising.Agrees W env parm1) (Tokenising.start W env parm1 words b str) delims ↔
      Meets (tokeniseStep W env parm1) (CallUndisturbed W env parm1) (Tokenising.start W env parm1 words b str) delims := by
  refine along_iff_meets (I := TokenInv W env parm1) (fun _ hs => hs.agrees) ?_ ?_ ⟨⟨rfl, ?_⟩, rfl⟩ h
  · intro s delim t hs hok ht
    exact (agrees_step hinv hnull hs ht).2 hok
  · intro s delim t hs hbad ht ha
    exact hbad ((agrees_step hinv hnull hs ht).1.1 ha)
  · show Function.update words parm1 _ parm1 = translate W env false (Function.update words parm1 str parm1)
    rw [Function.update_self, Function.update_self]

end

/-! ## Two runs -/

/-- The string `a,b` at 0x5000 and the delimiter at 0x6000. -/
def listText : Addr → UInt8 := fun p =>
  if p = 0x5000 then 97 else if p = 0x5001 then 44 else if p = 0x5002 then 98 else if p = 0x6000 then 44 else 0

/-- Where native and application addresses are the same, an application gets both tokens and NULL. -/
theorem tokenising_agrees_same :
    ∃ t, exec (tokeniseStep (nullWamr 0) 1 0x3000) (Tokenising.start (nullWamr 0) 1 0x3000 (fun _ => 0) listText 0x5000)
        [0x6000, 0x6000, 0x6000] = some t ∧
      t.appTokens = [(0x5000, [97]), (0x5002, [98]), (null, [])] ∧
      Along (tokeniseStep (nullWamr 0) 1 0x3000) (Tokenising.Agrees (nullWamr 0) 1 0x3000)
        (Tokenising.start (nullWamr 0) 1 0x3000 (fun _ => 0) listText 0x5000) [0x6000, 0x6000, 0x6000] := by
  have hinv : Function.LeftInverse (translate (nullWamr 0) 1 true) (translate (nullWamr 0) 1 false) := by
    intro a
    simp only [translate, nullWamr, Bool.false_eq_true, if_false, if_true]
    grind
  have ht : (exec (tokeniseStep (nullWamr 0) 1 0x3000)
      (Tokenising.start (nullWamr 0) 1 0x3000 (fun _ => 0) listText 0x5000) [0x6000, 0x6000, 0x6000]).map
        (·.appTokens) = some [(0x5000, [97]), (0x5002, [98]), (null, [])] := by decide +kernel
  obtain ⟨t, ht, htokens⟩ := Option.map_eq_some_iff.1 ht
  exact ⟨t, ht, htokens, (tokenising_agrees_iff hinv (by decide) ht).2 (by decide +kernel)⟩

/-- Where they are apart, the first call looks for the variable at another address. -/
theorem tokenising_not_agrees :
    ¬ ∀ (W : Wamr) (env parm1 : Addr) (words : Mem) (bytes : Addr → UInt8) (str : Addr) (delims : List Addr)
      (t : Tokenising), Function.LeftInverse (translate W env false) (translate W env true) →
      Function.LeftInverse (translate W env true) (translate W env false) →
      translate W env false null = null → translate W env true null = null →
      exec (tokeniseStep W env parm1) (Tokenising.start W env parm1 words bytes str) delims = some t →
      Along (tokeniseStep W env parm1) (Tokenising.Agrees W env parm1)
        (Tokenising.start W env parm1 words bytes str) delims := by
  intro h
  have hsome : (exec (tokeniseStep (nullWamr 0x1000) 1 0x3000)
      (Tokenising.start (nullWamr 0x1000) 1 0x3000 (fun _ => 0) listText 0x5000) [0x6000]).isSome := by decide +kernel
  obtain ⟨t, ht⟩ := Option.isSome_iff_exists.1 hsome
  have ha := h (nullWamr 0x1000) 1 0x3000 (fun _ => 0) listText 0x5000 [0x6000] t
    (nullWamr_leftInverse (by decide) 1) (nullWamr_rightInverse (by decide) 1) (by decide) (by decide) ht
  have hlast : ((tokeniseStep (nullWamr 0x1000) 1 0x3000
      (Tokenising.start (nullWamr 0x1000) 1 0x3000 (fun _ => 0) listText 0x5000) 0x6000).map
        fun t => (t.appTokens, t.nativeTokens)) = some ([(null, [])], [(0x5000, [97])]) := by decide +kernel
  obtain ⟨u, hu, htokens⟩ := Option.map_eq_some_iff.1 hlast
  have hu' : u.Agrees (nullWamr 0x1000) 1 0x3000 := ((along_cons _ hu).1 ha).2.head
  have := hu'.1
  rw [(Prod.mk.inj htokens).1, (Prod.mk.inj htokens).2] at this
  revert this
  decide

end VelaWasm.LibcBypass
