/-
Functions that take further arguments out of the argument area themselves: `glue_open`, `glue_mq_open` and `glue_ioctl`.
`glue_ioctl` lets `libc_ioctl_args_conv` translate the `ifc_req` of a `struct ifconf` before and after the call, but the
second time behind the argument that the call has taken. Over every sequence of such calls the native functions are given
what the application means, and it reads the `ifc_req` that they leave, exactly under a condition on each call.
-/
import VelaWasm.Lib.LockStep
import VelaWasm.Pointers

namespace VelaWasm.LibcBypass

open VelaWasm.LockStep

/-! ## The glue -/

/-- A call of a native function. -/
inductive AreaCall where
  | open (path : Addr) (flags : UInt32) (mode : Option UInt32)
  /-- with the mode and the attributes -/
  | mqOpen (name : Addr) (oflag : UInt32) (create : Option (UInt32 × Addr))
  | ioctl (fd request : UInt32) (arg : Addr)
  deriving DecidableEq, Repr

/-- The `ifc_req` of each `struct ifconf`, by its native address, and all other memory. -/
structure IfconfState (D : Type*) where
  ifcReq : Addr → Addr
  data : D

/-- A native function: given the call, the `ifc_req` that it reads and the other memory, its result and what it leaves. -/
abbrev AreaNative (D : Type*) := AreaCall → Option Addr → D → UInt32 × Addr × D

/-- The call that is made and its result. -/
structure AreaAnswer where
  call : AreaCall
  result : UInt32
  deriving DecidableEq, Repr

/-- The numbers of `O_CREAT` and `SIOCGIFCONF`, and the requests whose argument is a pointer. -/
structure Requests where
  oCreat : UInt32
  siocgifconf : UInt32
  pointer : UInt32 → Bool
  ifconf : pointer siocgifconf = true

variable {D : Type*} (R : Requests)

/-- The struct that `ioctl` works on. -/
def Requests.ifconfOf (request : UInt32) (arg : Addr) : Option Addr :=
  if request = R.siocgifconf ∧ arg ≠ null then some arg else none

/-- The native call, given a struct it works on or not. -/
def AreaNative.on (native : AreaNative D) (call : AreaCall) (ifc : Option Addr) (s : IfconfState D) :
    IfconfState D × AreaAnswer :=
  let (ret, left, data) := native call (ifc.map s.ifcReq) s.data
  (⟨ifc.elim s.ifcReq fun ifc => Function.update s.ifcReq ifc left, data⟩, ⟨call, ret⟩)

variable (W : Wamr) (env : Addr)

/-- `glue_open`, with the first word of the area -/
def glueOpen (open_ : AreaNative D) (path : Addr) (flags word : UInt32) (s : IfconfState D) :
    IfconfState D × AreaAnswer :=
  if flags &&& R.oCreat ≠ 0 then open_.on (.open path flags (some word)) none s
  else open_.on (.open path flags none) none s

/-- `glue_mq_open`, with the first two words of the area -/
def glueMqOpen (mqOpen : AreaNative D) (mqName : Addr) (oflag word word' : UInt32) (s : IfconfState D) :
    IfconfState D × AreaAnswer :=
  if oflag &&& R.oCreat ≠ 0 then mqOpen.on (.mqOpen mqName oflag (some (word, translate W env true word'))) none s
  else mqOpen.on (.mqOpen mqName oflag none) none s

/-- `libc_ioctl_args_conv`, where `ap` points to `word`; none where it dereferences null. -/
def libcIoctlArgsConv (firstArgType : UInt32) (word : Addr) (toNative : Bool) (ifcReq : Addr → Addr) :
    Option (Addr → Addr) :=
  if word = null then some ifcReq
  else
    let ifc := translate W env true word
    let addrApp := translate W env true null
    if R.siocgifconf = firstArgType then
      if toNative then
        if ifc = addrApp then some ifcReq
        else if ifc = null then none
        else if ifcReq ifc = null then some (Function.update ifcReq ifc null)
        else some (Function.update ifcReq ifc (translate W env true (ifcReq ifc)))
      else if ifc = null then some ifcReq
      else if ifcReq ifc ≠ null then some (Function.update ifcReq ifc (translate W env false (ifcReq ifc)))
      else some ifcReq
    else some ifcReq

/-- `glue_ioctl`, with the first two words of the area. Where the call takes the first, `ap` points to the second. -/
def glueIoctl (ioctl : AreaNative D) (parm1 parm2 : UInt32) (word word' : Addr) (s : IfconfState D) :
    Option (IfconfState D × AreaAnswer) :=
  (libcIoctlArgsConv R W env parm2 word true s.ifcReq).bind fun ifcReq =>
    let arg := if word ≠ null then translate W env true word else null
    let (s, answer) := ioctl.on (.ioctl parm1 parm2 arg) (R.ifconfOf parm2 arg) ⟨ifcReq, s.data⟩
    (libcIoctlArgsConv R W env parm2 (if word ≠ null then word' else word) false s.ifcReq).map fun ifcReq =>
      (⟨ifcReq, s.data⟩, answer)

/-! ## Runs -/

/-- What the application does, with the app addresses that it passes and the words of the area. -/
inductive AreaAction (D : Type*) where
  /-- it stores a pointer in the `ifc_req` of a struct -/
  | store (ifc p : Addr)
  | open (path : Addr) (flags word : UInt32) (native : AreaNative D)
  | mqOpen (name : Addr) (oflag word word' : UInt32) (native : AreaNative D)
  | ioctl (fd request : UInt32) (word word' : Addr) (native : AreaNative D)

/-- What the application does through the glue; WAMR translates the paths and names that it passes. -/
def areaGlueStep (s : IfconfState D) : AreaAction D → IfconfState D × Option AreaAnswer
  | .store ifc p => (⟨Function.update s.ifcReq (translate W env true ifc) p, s.data⟩, none)
  | .open path flags word native => (glueOpen R native (translate W env true path) flags word s).map id some
  | .mqOpen name oflag word word' native =>
    (glueMqOpen R W env native (translate W env true name) oflag word word' s).map id some
  | .ioctl fd request word word' native =>
    match glueIoctl R W env native fd request word word' s with
    | some (s, answer) => (s, some answer)
    | none => (s, none)

/-! ## The specification -/

/-- What `ioctl` is to get for the word. -/
def meantArg (request : UInt32) (word : Addr) : Addr := if R.pointer request then meant W env word else word

/-- The same without the bridge, on native addresses. -/
def areaNativeStep (n : IfconfState D) : AreaAction D → IfconfState D × Option AreaAnswer
  | .store ifc p => (⟨Function.update n.ifcReq (translate W env true ifc) (meant W env p), n.data⟩, none)
  | .open path flags word native =>
    (native.on (.open (meant W env path) flags (if flags &&& R.oCreat ≠ 0 then some word else none)) none n).map id some
  | .mqOpen name oflag word word' native =>
    (native.on (.mqOpen (meant W env name) oflag
      (if oflag &&& R.oCreat ≠ 0 then some (word, meant W env word') else none)) none n).map id some
  | .ioctl fd request word _ native =>
    let arg := meantArg R W env request word
    (native.on (.ioctl fd request arg) (R.ifconfOf request arg) n).map id some

/-- Every `ifc_req` stands for the native one, and all other memory is the same. -/
structure IfconfsDenote (s n : IfconfState D) : Prop where
  ifcReq : ∀ q, Denotes W env (s.ifcReq q) (n.ifcReq q)
  data : s.data = n.data

/-- The translation does not move the pointer. -/
def Unmoved (v : Addr) : Prop := v = null ∨ translate W env true v = v

instance (v : Addr) : Decidable (Unmoved W env v) := inferInstanceAs (Decidable (_ ∨ _))

/-- After `SIOCGIFCONF` the `ifc_req` is translated back where the word behind the argument is the argument again, and
else that of the struct that the word happens to point to. -/
def RereadIfconf (n : IfconfState D) (word word' left : Addr) : Prop :=
  translate W env true word ≠ null ∧
    if word' = word then Shown W env left
    else Unmoved W env left ∧
      (word' = null ∨ translate W env true word' = null ∨ Unmoved W env (n.ifcReq (translate W env true word')))

/-- Null is no path, name or attributes, no pointer that is stored stands for null, a number that `ioctl` takes is its
own translation, and the `ifc_req` of every struct can be read after the call. -/
def AreaKept (n : IfconfState D) : AreaAction D → Prop
  | .store _ p => p = null ∨ translate W env true p ≠ null
  | .open path .. => path = null → translate W env true null = null
  | .mqOpen name oflag _ word' _ =>
    name = null ∨ oflag &&& R.oCreat ≠ 0 ∧ word' = null → translate W env true null = null
  | .ioctl fd request word word' native =>
    word = null ∨
      if request = R.siocgifconf then
        RereadIfconf W env n word word'
          ((areaNativeStep R W env n (.ioctl fd request word word' native)).1.ifcReq (translate W env true word))
      else R.pointer request = true ∨ translate W env true word = word

/-! ## Pointers that are not translated, or twice -/

variable {R W env} {a v : Addr} {f g : Addr → Addr} {s n : IfconfState D}

theorem denotes_self_iff : Denotes W env v v ↔ Unmoved W env v := by
  rw [Denotes, Unmoved]
  by_cases hv : v = null
  · simp [hv]
  · simp [hv]

theorem denotes_update_iff (h : ∀ q, Denotes W env (f q) (g q)) (p : Addr) :
    (∀ q, Denotes W env (Function.update f p a q) (Function.update g p v q)) ↔ Denotes W env a v := by
  constructor
  · intro hset
    have hp := hset p
    rwa [Function.update_self, Function.update_self] at hp
  · intro ha q
    by_cases hq : q = p
    · subst hq
      rwa [Function.update_self, Function.update_self]
    · rw [Function.update_of_ne hq, Function.update_of_ne hq]
      exact h q

/-- The app's null arrives as the base of the linear memory. -/
theorem translate_eq_meant_iff {p : Addr} :
    translate W env true p = meant W env p ↔ (p = null → translate W env true null = null) := by
  rw [meant]
  by_cases hp : p = null
  · simp [hp]
  · simp [hp]

/-! ## The conversion of the struct -/

/-- Behind it that of the struct whose address stands at `ap` is read back. -/
theorem libcIoctlArgsConv_false (word : Addr) : libcIoctlArgsConv R W env R.siocgifconf word false f =
    some (if word = null ∨ translate W env true word = null then f
      else Function.update f (translate W env true word) (readAs W env (f (translate W env true word)))) := by
  rw [libcIoctlArgsConv, if_pos rfl, if_neg Bool.false_ne_true]
  by_cases hword : word = null
  · rw [if_pos hword, if_pos (.inl hword)]
  · by_cases hifc : translate W env true word = null
    · rw [if_neg hword, if_pos hifc, if_pos (.inr hifc)]
    · rw [if_neg hword, if_neg hifc, if_neg (not_or.2 ⟨hword, hifc⟩), readAs]
      by_cases hcell : f (translate W env true word) = null
      · rw [if_neg (not_not.2 hcell), if_pos hcell, ← hcell, Function.update_eq_self]
      · rw [if_pos hcell, if_neg hcell]

theorem libcIoctlArgsConv_of_ne {request : UInt32} (h : request ≠ R.siocgifconf) (word : Addr) (toNative : Bool) :
    libcIoctlArgsConv R W env request word toNative f = some f := by
  rw [libcIoctlArgsConv, if_neg (Ne.symm h), ite_self]

section

variable (hleft : Function.LeftInverse (translate W env false) (translate W env true))

include hleft

/-- Before the call the `ifc_req` of the struct becomes the native one. -/
theorem libcIoctlArgsConv_true {word : Addr} (h : ∀ q, Denotes W env (f q) (g q)) (hword : word ≠ null)
    (hifc : translate W env true word ≠ null) : libcIoctlArgsConv R W env R.siocgifconf word true f =
      some (Function.update f (translate W env true word) (g (translate W env true word))) := by
  have hcell := meant_of_denotes (h (translate W env true word))
  rw [libcIoctlArgsConv, if_neg hword, if_pos rfl, if_pos rfl, if_neg (mt (translate_eq_base_iff hleft).1 hword),
    if_neg hifc, ← hcell, meant]
  split_ifs with hnull
  · rfl
  · rfl

variable (hright : Function.RightInverse (translate W env false) (translate W env true))

include hright

/-- A pointer that is read by its native address once more. -/
theorem denotes_reread_iff (h : Denotes W env a v) : Denotes W env (readAs W env a) v ↔ Unmoved W env v := by
  by_cases hv : v = null
  · rw [h.1.2 hv, hv]
    simp [readAs, Denotes, Unmoved]
  · have ha : a ≠ null := mt h.1.1 hv
    have hav : translate W env true a = v := h.2 hv
    rw [readAs, if_neg ha, Unmoved, or_iff_right hv]
    constructor
    · intro hd
      have hsame : a = v := (hright a).symm.trans (hd.2 hv)
      rwa [hsame] at hav
    · intro hstay
      have hsame : a = v := hleft.injective (hav.trans hstay.symm)
      have hback : translate W env false a = a := by
        have hself := hleft a
        rwa [hav, ← hsame] at hself
      rw [hback]
      exact h

/-- Where the struct of the call and another are read back. -/
theorem denotes_readBack_iff (h : ∀ q, Denotes W env (f q) (g q)) (p q : Addr) :
    (∀ r, Denotes W env
        (Function.update (Function.update f p v) q (readAs W env (Function.update f p v q)) r)
        (Function.update g p v r)) ↔
      if q = p then Shown W env v else Unmoved W env v ∧ Unmoved W env (g q) := by
  split_ifs with hq
  · subst hq
    rw [Function.update_self, Function.update_idem, denotes_update_iff h, denotes_readAs_iff hright]
  · rw [Function.update_of_ne hq, ← denotes_self_iff (v := v), ← denotes_reread_iff hleft hright (h q)]
    constructor
    · intro hall
      have hp := hall p
      have hother := hall q
      rw [Function.update_of_ne (Ne.symm hq), Function.update_self] at hp
      rw [Function.update_self, Function.update_of_ne hq] at hother
      exact ⟨by rwa [Function.update_self] at hp, hother⟩
    · rintro ⟨hp, hother⟩ r
      by_cases hr : r = q
      · subst hr
        rwa [Function.update_self, Function.update_of_ne hq]
      · rw [Function.update_of_ne hr]
        exact (denotes_update_iff h p).2 hp r

end

/-! ## One call -/

/-- The native function is called alike on structs that stand for each other where it works on none. -/
theorem on_none (native : AreaNative D) (h : IfconfsDenote W env s n) {call call' : AreaCall} :
    (some (native.on call none s).2 = some (native.on call' none n).2 ∧
      IfconfsDenote W env (native.on call none s).1 (native.on call' none n).1) ↔ call = call' := by
  simp only [AreaNative.on, Option.map_none, Option.elim_none, h.data, Option.some_inj, AreaAnswer.mk.injEq]
  constructor
  · rintro ⟨⟨hcall, -⟩, -⟩
    exact hcall
  · rintro rfl
    exact ⟨⟨rfl, rfl⟩, h.ifcReq, rfl⟩

/-- The call is answered as the specification answers it and leaves structs that stand for its own. -/
abbrev AreaMatches (R : Requests) (W : Wamr) (env : Addr) : IfconfState D → IfconfState D → AreaAction D → Prop :=
  StepMatches (areaGlueStep R W env) (areaNativeStep R W env) (IfconfsDenote W env) Eq

theorem areaMatches_store (h : IfconfsDenote W env s n) (ifc p : Addr) :
    AreaMatches R W env s n (.store ifc p) ↔ AreaKept R W env n (.store ifc p) := by
  have hset := denotes_update_iff (a := p) (v := meant W env p) h.ifcReq (translate W env true ifc)
  rw [denotes_meant_iff] at hset
  rw [AreaKept, ← hset]
  exact ⟨fun hm => hm.2.ifcReq, fun hall => ⟨rfl, hall, h.data⟩⟩

theorem areaMatches_open (h : IfconfsDenote W env s n) (path : Addr) (flags word : UInt32) (native : AreaNative D) :
    AreaMatches R W env s n (.open path flags word native) ↔ AreaKept R W env n (.open path flags word native) := by
  have hcall : (glueOpen R native (translate W env true path) flags word s) =
      native.on (.open (translate W env true path) flags (if flags &&& R.oCreat ≠ 0 then some word else none)) none s := by
    rw [glueOpen]
    split_ifs <;> rfl
  rw [AreaKept, ← translate_eq_meant_iff, AreaMatches, StepMatches, areaGlueStep, areaNativeStep, hcall]
  exact (on_none native h).trans (by rw [AreaCall.open.injEq]; simp)

theorem areaMatches_mqOpen (h : IfconfsDenote W env s n) (name : Addr) (oflag word word' : UInt32)
    (native : AreaNative D) : AreaMatches R W env s n (.mqOpen name oflag word word' native) ↔
      AreaKept R W env n (.mqOpen name oflag word word' native) := by
  have hcall : (glueMqOpen R W env native (translate W env true name) oflag word word' s) =
      native.on (.mqOpen (translate W env true name) oflag
        (if oflag &&& R.oCreat ≠ 0 then some (word, translate W env true word') else none)) none s := by
    rw [glueMqOpen]
    split_ifs <;> rfl
  rw [AreaKept, or_imp, and_imp, ← translate_eq_meant_iff, ← translate_eq_meant_iff, AreaMatches, StepMatches,
    areaGlueStep, areaNativeStep, hcall]
  refine (on_none native h).trans ?_
  rw [AreaCall.mqOpen.injEq]
  by_cases hcreat : oflag &&& R.oCreat = 0
  · simp [hcreat]
  · simp [hcreat]

/-- A request that works on no struct. -/
theorem areaMatches_ioctl_of_none (h : IfconfsDenote W env s n) {request : UInt32} {word : Addr}
    (hreq : request ≠ R.siocgifconf ∨ word = null) (fd : UInt32) (word' : Addr) (native : AreaNative D) :
    AreaMatches R W env s n (.ioctl fd request word word' native) ↔
      word = null ∨ R.pointer request = true ∨ translate W env true word = word := by
  have hconv : ∀ toNative f, libcIoctlArgsConv R W env request word toNative f = some f ∧
      libcIoctlArgsConv R W env request (if word ≠ null then word' else word) toNative f = some f := by
    intro toNative f
    rcases hreq with hreq | rfl
    · exact ⟨libcIoctlArgsConv_of_ne hreq _ _, libcIoctlArgsConv_of_ne hreq _ _⟩
    · exact ⟨rfl, rfl⟩
  have hifc : ∀ arg, (word = null → arg = null) → R.ifconfOf request arg = none := fun arg harg =>
    if_neg fun h => hreq.elim (· h.1) fun hword => h.2 (harg hword)
  have hcall : areaGlueStep R W env s (.ioctl fd request word word' native) =
      (native.on (.ioctl fd request (if word ≠ null then translate W env true word else null)) none s).map id some := by
    simp only [areaGlueStep, glueIoctl, hconv, Option.bind_some, Option.map_some]
    rw [hifc _ fun hword => if_neg (not_not.2 hword)]
    rfl
  rw [AreaMatches, StepMatches, hcall, areaNativeStep, hifc]
  · refine (on_none native h).trans ?_
    simp only [AreaCall.ioctl.injEq, true_and, meantArg, meant]
    by_cases hword : word = null
    · simp [hword]
    · cases hpointer : R.pointer request <;> simp [hword]
  · rintro rfl
    simp [meantArg, meant]

section

variable (hleft : Function.LeftInverse (translate W env false) (translate W env true))
  (hright : Function.RightInverse (translate W env false) (translate W env true))

include hleft hright

/-- `SIOCGIFCONF` -/
theorem areaMatches_ioctl_ifconf (h : IfconfsDenote W env s n) {word : Addr} (hword : word ≠ null) (fd : UInt32)
    (word' : Addr) (native : AreaNative D) :
    AreaMatches R W env s n (.ioctl fd R.siocgifconf word word' native) ↔
      RereadIfconf W env n word word'
        ((areaNativeStep R W env n (.ioctl fd R.siocgifconf word word' native)).1.ifcReq (translate W env true word)) := by
  by_cases hifc : translate W env true word = null
  · refine iff_of_false (fun hm => ?_) fun hk => hk.1 hifc
    have hcrash : libcIoctlArgsConv R W env R.siocgifconf word true s.ifcReq = none := by
      rw [libcIoctlArgsConv, if_neg hword, if_pos rfl, if_pos rfl, if_neg (mt (translate_eq_base_iff hleft).1 hword),
        if_pos hifc]
    have hanswer := hm.1
    simp only [areaGlueStep, glueIoctl, hcrash, Option.bind_none, areaNativeStep] at hanswer
    cases hanswer
  · have hof : R.ifconfOf R.siocgifconf (translate W env true word) = some (translate W env true word) :=
      if_pos ⟨rfl, hifc⟩
    have harg : meantArg R W env R.siocgifconf word = translate W env true word := by
      rw [meantArg, R.ifconf, if_pos rfl, meant, if_neg hword]
    simp only [AreaMatches, StepMatches, areaGlueStep, glueIoctl, libcIoctlArgsConv_true hleft h.ifcReq hword hifc,
      Option.bind_some, if_pos hword, hof, AreaNative.on, Option.map_some, Option.elim_some, Function.update_self,
      Function.update_idem, libcIoctlArgsConv_false, areaNativeStep, harg, h.data, Prod.map, id_eq, true_and,
      RereadIfconf, ne_eq, hifc, not_false_eq_true]
    generalize native (.ioctl fd R.siocgifconf (translate W env true word))
      (some (n.ifcReq (translate W env true word))) n.data = r
    refine Iff.trans ⟨IfconfsDenote.ifcReq, fun hall => ⟨hall, rfl⟩⟩ ?_
    by_cases hbehind : word' = null ∨ translate W env true word' = null
    · -- nothing is read back
      have hne : word' ≠ word := by
        rintro rfl
        exact hbehind.elim hword hifc
      simp only [if_pos hbehind, denotes_update_iff h.ifcReq, denotes_self_iff, if_neg hne]
      exact (and_iff_left (hbehind.imp_right Or.inl)).symm
    · simp only [if_neg hbehind, denotes_readBack_iff hleft hright h.ifcReq, hleft.injective.eq_iff]
      rw [not_or] at hbehind
      simp [hbehind.1, hbehind.2]

theorem areaMatches_iff (h : IfconfsDenote W env s n) (a : AreaAction D) :
    AreaMatches R W env s n a ↔ AreaKept R W env n a := by
  cases a with
  | store ifc p => exact areaMatches_store h ifc p
  | «open» path flags word native => exact areaMatches_open h path flags word native
  | mqOpen name oflag word word' native => exact areaMatches_mqOpen h name oflag word word' native
  | ioctl fd request word word' native =>
    rw [AreaKept]
    by_cases hreq : request = R.siocgifconf
    · subst hreq
      rw [if_pos rfl]
      by_cases hword : word = null
      · exact iff_of_true ((areaMatches_ioctl_of_none h (.inr hword) fd word' native).2 (.inl hword)) (.inl hword)
      · rw [or_iff_right hword]
        exact areaMatches_ioctl_ifconf hleft hright h hword fd word' native
    · rw [if_neg hreq]
      exact areaMatches_ioctl_of_none h (.inl hreq) fd word' native

end

/-! ## Runs -/

/-- From structs that stand for native ones, in a run of calls the native functions are given what the application means,
and the `ifc_req` that they leave are read as what they are, exactly when each call meets the condition. -/
theorem areaRun_matches_iff (hleft : Function.LeftInverse (translate W env false) (translate W env true))
    (hright : Function.RightInverse (translate W env false) (translate W env true)) (h : IfconfsDenote W env s n)
    (as : List (AreaAction D)) :
    RunMatches (areaGlueStep R W env) (areaNativeStep R W env) (IfconfsDenote W env) Eq s n as ↔
      Permits (areaNativeStep R W env) (AreaKept R W env) n as :=
  runMatches_iff (fun _ _ a hst => areaMatches_iff hleft hright hst a) h as

def areaWamr : Wamr := .linear id fun _ => 0x1000

def areaRequests : Requests := ⟨4, 0x703, fun request => request == 0x703 || request == 0x28f, rfl⟩

/-- A queue is created, a socket set by a flag in memory, and its interfaces are listed by a call with the struct twice. -/
def interfacesListed : List (AreaAction Unit) :=
  [.mqOpen 0x100 6 438 0x200 fun _ _ d => (3, null, d), .open 0x110 0 null fun _ _ d => (4, null, d),
    .ioctl 4 0x28f 0x300 null fun _ _ d => (0, null, d), .store 0x400 0x500,
    .ioctl 4 0x703 0x400 0x400 fun _ req d => (0, req.getD null, d)]

theorem areaRun_interfacesListed :
    RunMatches (areaGlueStep areaRequests areaWamr null) (areaNativeStep areaRequests areaWamr null)
      (IfconfsDenote areaWamr null) Eq ⟨fun _ => null, ()⟩ ⟨fun _ => null, ()⟩ interfacesListed := by
  have hstart : IfconfsDenote (D := Unit) areaWamr null ⟨fun _ => null, ()⟩ ⟨fun _ => null, ()⟩ :=
    ⟨fun _ => ⟨Iff.rfl, fun h => absurd rfl h⟩, rfl⟩
  refine (areaRun_matches_iff (Wamr.linear_leftInverse _ _ null) (Wamr.linear_rightInverse _ _ null) hstart _).2
    ⟨?_, ?_, .inr ?_, .inr ?_, .inr ?_, trivial⟩
  · exact fun h => absurd h (by decide)
  · exact fun h => absurd h (by decide)
  · rw [if_neg (by decide)]
    exact .inl rfl
  · decide
  · rw [if_pos (by decide)]
    exact ⟨by decide, by decide⟩

end VelaWasm.LibcBypass
