/-
The Wi-Fi configuration of an application: `glue_wapi_load_config`, `glue_wapi_save_config`,
`glue_wpa_driver_wext_associate` and `glue_wapi_unload_config`, over every sequence of calls and of pointers that the
application stores in its configurations in between. The native functions are given what they would be given without the
bridge, and the application reads what they leave, exactly as long as no pointer is the base of the linear memory or
stands for null, and no configuration is unloaded: the link of a loaded item is translated even where it is null.
-/
import VelaWasm.Lib.LockStep
import VelaWasm.Pointers
import VelaWasm.Wapi.ScanList

namespace VelaWasm.Wapi

open VelaWasm.LockStep

/-! ## The glue -/

/-- The pointers of `wpa_wconfig_s`. -/
structure WpaWconfig where
  ifname : Addr
  ssid : Addr
  bssid : Addr
  passphrase : Addr
  deriving DecidableEq, Repr

def WpaWconfig.map (f : Addr → Addr) (c : WpaWconfig) : WpaWconfig := ⟨f c.ifname, f c.ssid, f c.bssid, f c.passphrase⟩

/-- A call of a native function, with the configuration or the item and its link that it is called on. -/
inductive ConfigCall where
  | wapiLoadConfig (ifname confname : Addr) (conf : WpaWconfig)
  | wapiSaveConfig (ifname confname : Addr) (conf : WpaWconfig)
  | wpaDriverWextAssociate (wconfig : WpaWconfig)
  | wapiUnloadConfig (item next : Addr)
  deriving DecidableEq, Repr

/-- What the caller gets. -/
inductive ConfigResult where
  | pointer (p : Addr)
  | value (v : UInt32)
  | nothing
  deriving DecidableEq, Repr

/-- What a call does: the native call it makes, if any, and its result. -/
structure ConfigAnswer where
  call : Option ConfigCall
  result : ConfigResult
  deriving DecidableEq, Repr

/-- `wapi_load_config`: the item, null on failure, and what it leaves in the configuration. -/
abbrev LoadConfig := Addr → Addr → WpaWconfig → Addr × WpaWconfig

section

variable (W : Wamr) (env : Addr)

/-- `PTR_TO_NATIVE` and `PTR_TO_APP` -/
def ptrConv (toNative : Bool) (p : Addr) : Addr := if p ≠ null then translate W env toNative p else p

/-- `wconfig_ptrs_to_native` -/
def wconfigPtrsToNative (wconfig : WpaWconfig) : WpaWconfig := wconfig.map (ptrConv W env true)

/-- `wconfig_ptrs_to_app` -/
def wconfigPtrsToApp (wconfig : WpaWconfig) : WpaWconfig := wconfig.map (ptrConv W env false)

/-- `glue_wpa_driver_wext_associate` -/
def glueWpaDriverWextAssociate (wpaDriverWextAssociate : WpaWconfig → UInt32 × WpaWconfig) (parm1 : Addr)
    (wconfig : WpaWconfig) : WpaWconfig × ConfigAnswer :=
  if parm1 = translate W env true null then (wconfig, ⟨none, .value (-efault)⟩)
  else
    let given := wconfigPtrsToNative W env wconfig
    let (ret, wconfig) := wpaDriverWextAssociate given
    (wconfigPtrsToApp W env wconfig, ⟨some (.wpaDriverWextAssociate given), .value ret⟩)

/-- `glue_wapi_unload_config`, for an item whose link is `next`. The item is freed when the link is translated back. -/
def glueWapiUnloadConfig (parm1 next : Addr) : ConfigAnswer :=
  if parm1 = translate W env true null then ⟨none, .nothing⟩
  else ⟨some (.wapiUnloadConfig parm1 (translate W env true next)), .nothing⟩

/-- `glue_wapi_load_config` -/
def glueWapiLoadConfig (wapiLoadConfig : LoadConfig) (parm1 parm2 parm3 : Addr) (conf : WpaWconfig) :
    WpaWconfig × ConfigAnswer :=
  let addrApp := translate W env true null
  if parm1 = addrApp then (conf, ⟨none, .pointer null⟩)
  else
    let parm2 := if parm2 = addrApp then null else parm2
    if parm3 = addrApp then (conf, ⟨none, .pointer null⟩)
    else
      let given := wconfigPtrsToNative W env conf
      let (item, conf) := wapiLoadConfig parm1 parm2 given
      (wconfigPtrsToApp W env conf,
        ⟨some (.wapiLoadConfig parm1 parm2 given), .pointer (translate W env false item)⟩)

/-- `glue_wapi_save_config`, whose native function does not write. -/
def glueWapiSaveConfig (wapiSaveConfig : Addr → Addr → WpaWconfig → UInt32) (parm1 parm2 parm3 : Addr)
    (conf : WpaWconfig) : WpaWconfig × ConfigAnswer :=
  let addrApp := translate W env true null
  if parm1 = addrApp then (conf, ⟨none, .value 0⟩)
  else
    let parm2 := if parm2 = addrApp then null else parm2
    if parm3 = addrApp then (conf, ⟨none, .value 0⟩)
    else
      let given := wconfigPtrsToNative W env conf
      (wconfigPtrsToApp W env given,
        ⟨some (.wapiSaveConfig parm1 parm2 given), .value (wapiSaveConfig parm1 parm2 given)⟩)

end

/-! ## Runs -/

inductive ConfigField where
  | ifname | ssid | bssid | passphrase
  deriving DecidableEq, Repr

def WpaWconfig.get (c : WpaWconfig) : ConfigField → Addr
  | .ifname => c.ifname
  | .ssid => c.ssid
  | .bssid => c.bssid
  | .passphrase => c.passphrase

def WpaWconfig.set (c : WpaWconfig) (p : Addr) : ConfigField → WpaWconfig
  | .ifname => { c with ifname := p }
  | .ssid => { c with ssid := p }
  | .bssid => { c with bssid := p }
  | .passphrase => { c with passphrase := p }

/-- What the application does, with the app addresses it passes and what the native functions do. -/
inductive ConfigAction where
  /-- it stores a pointer in a configuration -/
  | store (conf : Addr) (field : ConfigField) (p : Addr)
  | wapiLoadConfig (ifname confname conf : Addr) (native : LoadConfig)
  | wapiSaveConfig (ifname confname conf : Addr) (native : Addr → Addr → WpaWconfig → UInt32)
  | wpaDriverWextAssociate (conf : Addr) (native : WpaWconfig → UInt32 × WpaWconfig)
  /-- of an item whose link is `next` -/
  | wapiUnloadConfig (item next : Addr)

/-- The configurations by their addresses. -/
abbrev Configs := Addr → WpaWconfig

variable (W : Wamr) (env : Addr)

/-- What the application does through the glue; WAMR translates the addresses that it passes. -/
def glueStep (s : Configs) : ConfigAction → Configs × ConfigAnswer
  | .store conf field p => (Function.update s conf ((s conf).set p field), ⟨none, .nothing⟩)
  | .wapiLoadConfig ifname confname conf native =>
    let (c, answer) := glueWapiLoadConfig W env native (translate W env true ifname) (translate W env true confname)
      (translate W env true conf) (s conf)
    (Function.update s conf c, answer)
  | .wapiSaveConfig ifname confname conf native =>
    let (c, answer) := glueWapiSaveConfig W env native (translate W env true ifname) (translate W env true confname)
      (translate W env true conf) (s conf)
    (Function.update s conf c, answer)
  | .wpaDriverWextAssociate conf native =>
    let (c, answer) := glueWpaDriverWextAssociate W env native (translate W env true conf) (s conf)
    (Function.update s conf c, answer)
  | .wapiUnloadConfig item next => (s, glueWapiUnloadConfig W env (translate W env true item) next)

/-! ## The specification -/

/-- The same without the bridge: the configurations hold native addresses, which the native functions work on. A call
without an interface name, a configuration or an item is refused with the results that the glue has for it. -/
def nativeStep (n : Configs) : ConfigAction → Configs × ConfigAnswer
  | .store conf field p => (Function.update n conf ((n conf).set (meant W env p) field), ⟨none, .nothing⟩)
  | .wapiLoadConfig ifname confname conf native =>
    if ifname = null ∨ conf = null then (n, ⟨none, .pointer null⟩)
    else
      let (item, c) := native (meant W env ifname) (meant W env confname) (n conf)
      (Function.update n conf c,
        ⟨some (.wapiLoadConfig (meant W env ifname) (meant W env confname) (n conf)), .pointer item⟩)
  | .wapiSaveConfig ifname confname conf native =>
    if ifname = null ∨ conf = null then (n, ⟨none, .value 0⟩)
    else
      (n, ⟨some (.wapiSaveConfig (meant W env ifname) (meant W env confname) (n conf)),
        .value (native (meant W env ifname) (meant W env confname) (n conf))⟩)
  | .wpaDriverWextAssociate conf native =>
    if conf = null then (n, ⟨none, .value (-efault)⟩)
    else
      let (ret, c) := native (n conf)
      (Function.update n conf c, ⟨some (.wpaDriverWextAssociate (n conf)), .value ret⟩)
  | .wapiUnloadConfig item next =>
    if item = null then (n, ⟨none, .nothing⟩) else (n, ⟨some (.wapiUnloadConfig (meant W env item) next), .nothing⟩)

def ConfigDenotes (a n : WpaWconfig) : Prop := ∀ field, Denotes W env (a.get field) (n.get field)

def ConfigsDenote (s n : Configs) : Prop := ∀ conf, ConfigDenotes W env (s conf) (n conf)

def ResultDenotes : ConfigResult → ConfigResult → Prop
  | .pointer a, .pointer n => Denotes W env a n
  | a, n => a = n

/-- The same native call, and a result that stands for the native one. -/
def AnswerDenotes (a n : ConfigAnswer) : Prop := a.call = n.call ∧ ResultDenotes W env a.result n.result

/-- No pointer stored stands for null, those that native functions store or return have addresses of their own, a null
result is the app's null, and no link is moved. -/
def Addressable (n : Configs) : ConfigAction → Prop
  | .store _ _ p => p = null ∨ translate W env true p ≠ null
  | .wapiLoadConfig ifname confname conf native =>
    let r := native (meant W env ifname) (meant W env confname) (n conf)
    ifname = null ∨ conf = null ∨ (translate W env false r.1 = null ↔ r.1 = null) ∧ ∀ field, Shown W env (r.2.get field)
  | .wapiSaveConfig .. => True
  | .wpaDriverWextAssociate conf native => conf = null ∨ ∀ field, Shown W env ((native (n conf)).2.get field)
  | .wapiUnloadConfig item next => item = null ∨ translate W env true next = next

/-! ## One configuration -/

variable {W env} {a n p : Addr}

theorem ptrConv_true (p : Addr) : ptrConv W env true p = meant W env p := by
  rw [ptrConv, meant]
  by_cases hp : p = null
  · rw [if_neg (not_not.2 hp), if_pos hp, hp]
  · rw [if_pos hp, if_neg hp]

theorem ptrConv_false (p : Addr) : ptrConv W env false p = readAs W env p := by
  rw [ptrConv, readAs]
  by_cases hp : p = null
  · rw [if_neg (not_not.2 hp), if_pos hp, hp]
  · rw [if_pos hp, if_neg hp]

variable {s t : Configs} {c d : WpaWconfig} {conf : Addr}

@[simp]
theorem get_map (f : Addr → Addr) (c : WpaWconfig) (field : ConfigField) : (c.map f).get field = f (c.get field) := by
  cases field <;> rfl

theorem get_set (c : WpaWconfig) (p : Addr) (field g : ConfigField) :
    (c.set p field).get g = if g = field then p else c.get g := by
  cases field <;> cases g <;> rfl

theorem WpaWconfig.ext_get (h : ∀ field, c.get field = d.get field) : c = d := by
  cases c
  cases d
  simp only [WpaWconfig.mk.injEq]
  exact ⟨h .ifname, h .ssid, h .bssid, h .passphrase⟩

/-- A native function is given the configuration that is meant. -/
theorem wconfigPtrsToNative_eq (h : ConfigDenotes W env c d) : wconfigPtrsToNative W env c = d :=
  WpaWconfig.ext_get fun field => by
    rw [wconfigPtrsToNative, get_map, ptrConv_true, meant_of_denotes (h field)]

/-- What a native function leaves. -/
theorem configDenotes_toApp_iff (hright : Function.RightInverse (translate W env false) (translate W env true)) :
    ConfigDenotes W env (wconfigPtrsToApp W env d) d ↔ ∀ field, Shown W env (d.get field) := by
  refine forall_congr' fun field => ?_
  rw [wconfigPtrsToApp, get_map, ptrConv_false]
  exact denotes_readAs_iff hright

theorem configDenotes_set_iff (h : ConfigDenotes W env c d) (field : ConfigField) :
    ConfigDenotes W env (c.set a field) (d.set n field) ↔ Denotes W env a n := by
  constructor
  · intro hset
    have hfield := hset field
    rwa [get_set, get_set, if_pos rfl, if_pos rfl] at hfield
  · intro ha g
    rw [get_set, get_set]
    split_ifs
    · exact ha
    · exact h g

theorem configsDenote_update_iff (h : ConfigsDenote W env s t) :
    ConfigsDenote W env (Function.update s conf c) (Function.update t conf d) ↔ ConfigDenotes W env c d := by
  constructor
  · intro hset
    have hconf := hset conf
    rwa [Function.update_self, Function.update_self] at hconf
  · intro hc q
    by_cases hq : q = conf
    · subst hq
      rwa [Function.update_self, Function.update_self]
    · rw [Function.update_of_ne hq, Function.update_of_ne hq]
      exact h q

/-! ## One step -/

/-- The action is answered as the specification answers it and leaves configurations that stand for its own. -/
abbrev Matches (W : Wamr) (env : Addr) : Configs → Configs → ConfigAction → Prop :=
  StepMatches (glueStep W env) (nativeStep W env) (ConfigsDenote W env) (AnswerDenotes W env)

section

variable (hleft : Function.LeftInverse (translate W env false) (translate W env true))
  (hright : Function.RightInverse (translate W env false) (translate W env true)) (h : ConfigsDenote W env s t)

include h

theorem matches_store (field : ConfigField) :
    Matches W env s t (.store conf field p) ↔ Addressable W env t (.store conf field p) := by
  rw [Matches, StepMatches, glueStep, nativeStep, configsDenote_update_iff h, configDenotes_set_iff (h conf),
    denotes_meant_iff]
  exact and_iff_right ⟨rfl, rfl⟩

include hleft

theorem matches_unloadConfig (next : Addr) :
    Matches W env s t (.wapiUnloadConfig p next) ↔ Addressable W env t (.wapiUnloadConfig p next) := by
  simp only [StepMatches, glueStep, nativeStep, Addressable, glueWapiUnloadConfig, translate_eq_base_iff hleft]
  by_cases hp : p = null
  · simp [hp, AnswerDenotes, ResultDenotes, h]
  · simp [hp, AnswerDenotes, ResultDenotes, meant, h]

/-- A configuration that a native function only reads is what it was. -/
theorem configsDenote_reread (conf : Addr) :
    ConfigsDenote W env (Function.update s conf (wconfigPtrsToApp W env (wconfigPtrsToNative W env (s conf)))) t := by
  have hsame : wconfigPtrsToApp W env (wconfigPtrsToNative W env (s conf)) = s conf := by
    refine WpaWconfig.ext_get fun field => ?_
    rw [wconfigPtrsToApp, get_map, wconfigPtrsToNative_eq (h conf), ptrConv_false, ← (h conf field).eq_readAs hleft]
  rw [hsame, Function.update_eq_self]
  exact h

theorem matches_saveConfig (ifname confname : Addr) (native : Addr → Addr → WpaWconfig → UInt32) :
    Matches W env s t (.wapiSaveConfig ifname confname conf native) := by
  simp only [StepMatches, glueStep, nativeStep, glueWapiSaveConfig, translate_eq_base_iff hleft, meant_eq]
  by_cases hi : ifname = null
  · simp [hi, AnswerDenotes, ResultDenotes, h]
  · by_cases hc : conf = null
    · simp [hi, hc, AnswerDenotes, ResultDenotes, h]
    · have hmeant : translate W env true ifname = meant W env ifname := (if_neg hi).symm
      simp only [hi, hc, if_false, or_self, hmeant]
      refine ⟨⟨?_, ?_⟩, configsDenote_reread hleft h conf⟩
      · rw [wconfigPtrsToNative_eq (h conf)]
      · rw [wconfigPtrsToNative_eq (h conf)]
        rfl

include hright

theorem matches_associate (native : WpaWconfig → UInt32 × WpaWconfig) :
    Matches W env s t (.wpaDriverWextAssociate conf native) ↔
      Addressable W env t (.wpaDriverWextAssociate conf native) := by
  simp only [StepMatches, glueStep, nativeStep, Addressable, glueWpaDriverWextAssociate, translate_eq_base_iff hleft]
  by_cases hc : conf = null
  · simp [hc, AnswerDenotes, ResultDenotes, h]
  · simp only [hc, if_false, false_or, wconfigPtrsToNative_eq (h conf), configsDenote_update_iff h,
      configDenotes_toApp_iff hright]
    exact and_iff_right ⟨rfl, rfl⟩

theorem matches_loadConfig (ifname confname : Addr) (native : LoadConfig) :
    Matches W env s t (.wapiLoadConfig ifname confname conf native) ↔
      Addressable W env t (.wapiLoadConfig ifname confname conf native) := by
  simp only [StepMatches, glueStep, nativeStep, Addressable, glueWapiLoadConfig, translate_eq_base_iff hleft,
    meant_eq]
  by_cases hi : ifname = null
  · simp [hi, AnswerDenotes, ResultDenotes, Denotes, h]
  · by_cases hc : conf = null
    · simp [hi, hc, AnswerDenotes, ResultDenotes, Denotes, h]
    · have hmeant : translate W env true ifname = meant W env ifname := (if_neg hi).symm
      simp only [hi, hc, if_false, false_or, or_self, hmeant, wconfigPtrsToNative_eq (h conf),
        configsDenote_update_iff h, configDenotes_toApp_iff hright, AnswerDenotes, ResultDenotes,
        denotes_translate_iff hright, true_and]

theorem matches_iff (a : ConfigAction) : Matches W env s t a ↔ Addressable W env t a := by
  cases a with
  | store conf field p => exact matches_store h field
  | wapiLoadConfig ifname confname conf native => exact matches_loadConfig hleft hright h ifname confname native
  | wapiSaveConfig ifname confname conf native =>
    exact iff_of_true (matches_saveConfig hleft h ifname confname native) trivial
  | wpaDriverWextAssociate conf native => exact matches_associate hleft hright h native
  | wapiUnloadConfig item next => exact matches_unloadConfig hleft h next

end

/-! ## Runs -/

/-- From configurations that stand for those of the specification, a run makes its native calls and reads what they leave
exactly when its pointers are addressable and its items are not unloaded with a link that the translation moves. -/
theorem configRun_matches_iff (hleft : Function.LeftInverse (translate W env false) (translate W env true))
    (hright : Function.RightInverse (translate W env false) (translate W env true)) (h : ConfigsDenote W env s t)
    (as : List ConfigAction) :
    RunMatches (glueStep W env) (nativeStep W env) (ConfigsDenote W env) (AnswerDenotes W env) s t as ↔
      Permits (nativeStep W env) (Addressable W env) t as :=
  runMatches_iff (fun _ _ a hst => matches_iff hleft hright hst a) h as

def configWamr : Wamr := .linear id fun _ => 0x1000

def noConfigs : Configs := fun _ => ⟨null, null, null, null⟩

/-- A configuration is loaded, given another name of the network, saved and associated with. -/
def loadedAndSaved : List ConfigAction :=
  [.wapiLoadConfig 0x100 null 0x200 fun ifname _ _ => (0x9000, ⟨ifname, 0x9100, null, 0x9200⟩),
    .store 0x200 .ssid 0x300, .wapiSaveConfig 0x100 null 0x200 fun _ _ _ => 0,
    .wpaDriverWextAssociate 0x200 fun wconfig => (0, wconfig)]

theorem configRun_loadedAndSaved :
    RunMatches (glueStep configWamr null) (nativeStep configWamr null) (ConfigsDenote configWamr null)
      (AnswerDenotes configWamr null) noConfigs noConfigs loadedAndSaved := by
  refine (configRun_matches_iff (Wamr.linear_leftInverse _ _ null) (Wamr.linear_rightInverse _ _ null)
    (fun _ field => ?_) _).2 ?_
  · cases field <;> exact ⟨Iff.rfl, fun h => absurd rfl h⟩
  · refine ⟨.inr (.inr ⟨by decide, fun field => ?_⟩), .inr (by decide), trivial, .inr fun field => ?_, trivial⟩
    · cases field <;> first | exact .inl rfl | exact .inr (by decide)
    · cases field <;> first | exact .inl rfl | exact .inr (by decide)

end VelaWasm.Wapi
