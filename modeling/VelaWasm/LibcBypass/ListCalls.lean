/-
`glue_getaddrinfo`, `glue_getifaddrs` and `glue_scandir` when the native function fails and stores nothing: the
result pointer is translated all the same, and the first two walk the list that it seems to lead to. Every
translation makes a word smaller but null, so memory is left alone only by a result pointer that was null.
-/
import VelaWasm.Dbus.Args

namespace VelaWasm.LibcBypass

open VelaWasm.Dbus

/-! ## The glue -/

/-- Where the fields stand in a `struct addrinfo`. -/
structure Addrinfo where
  aiCanonname : UInt32
  aiAddr : UInt32
  aiNext : UInt32

/-- Where the fields stand in a `struct ifaddrs`. -/
structure Ifaddrs where
  ifaBroadaddr : UInt32
  ifaAddr : UInt32
  ifaName : UInt32
  ifaData : UInt32
  ifaNetmask : UInt32
  ifaNext : UInt32

/-- A native function, given its arguments and memory: what it returns and the memory it leaves. -/
abbrev Native := List Addr → Mem → UInt32 × Mem

variable (W : Wamr) (env : Addr)

/-- The pointers of a list node, translated one after the other. -/
def fieldsToApp (cur : Addr) : List UInt32 → Mem → Mem
  | [], m => m
  | field :: fields, m => fieldsToApp cur fields (translateAt W env false (cur + field) m)

/-- The loop over a list whose nodes are linked at offset `next`, for at most `fuel` nodes. -/
def listToApp (fields : List UInt32) (next : UInt32) : ℕ → Addr → Mem → Option Mem
  | fuel, cur, m =>
    if cur = null then some m
    else
      match fuel with
      | 0 => none
      | fuel + 1 =>
        let m := fieldsToApp W env cur fields m
        let tmp := m (cur + next)
        listToApp fields next fuel tmp (translateAt W env false (cur + next) m)

/-- `addrinfo2app` -/
def addrinfo2app (o : Addrinfo) : ℕ → Addr → Mem → Option Mem :=
  listToApp W env [o.aiCanonname, o.aiAddr] o.aiNext

/-- `ifaddrsinfo2app` -/
def ifaddrsinfo2app (o : Ifaddrs) : ℕ → Addr → Mem → Option Mem :=
  listToApp W env [o.ifaBroadaddr, o.ifaAddr, o.ifaName, o.ifaData, o.ifaNetmask] o.ifaNext

/-- An argument that is the application's null. -/
def nullArg (parm : Addr) : Addr := if parm = translate W env true null then null else parm

/-- `glue_getaddrinfo`; the test of `parm4` comes too late for `addr`. -/
def glueGetaddrinfo (o : Addrinfo) (getaddrinfo : Native) (fuel : ℕ) (parm1 parm2 parm3 parm4 : Addr) (m : Mem) :
    Option (UInt32 × Mem) :=
  let addr := parm4
  let (ret, m) := getaddrinfo [nullArg W env parm1, nullArg W env parm2, nullArg W env parm3, addr] m
  (addrinfo2app W env o fuel (m addr) m).map fun m => (ret, translateAt W env false addr m)

/-- `glue_getifaddrs` -/
def glueGetifaddrs (o : Ifaddrs) (getifaddrs : Native) (fuel : ℕ) (parm1 : Addr) (m : Mem) : Option (UInt32 × Mem) :=
  let addr := parm1
  let (ret, m) := getifaddrs [addr] m
  (ifaddrsinfo2app W env o fuel (m addr) m).map fun m => (ret, translateAt W env false addr m)

/-- The loop of `glue_scandir` over the entries, from entry `i` on. -/
def entriesToApp (parm2 : Addr) : ℕ → ℕ → Mem → Mem
  | 0, _, m => m
  | n + 1, i, m => entriesToApp parm2 n (i + 1) (translateAt W env false (m parm2 + 4 * UInt32.ofNat i) m)

/-- `glue_scandir` -/
def glueScandir (scandir : Native) (parm1 parm2 parm3 parm4 : Addr) (m : Mem) : UInt32 × Mem :=
  let (ret, m) := scandir [parm1, parm2, parm3, parm4] m
  let m := entriesToApp W env parm2 (loopCount ret) 0 m
  (ret, translateAt W env false parm2 m)

/-! ## The property -/

inductive ListCall where
  | getaddrinfo (o : Addrinfo) (parm1 parm2 parm3 parm4 : Addr)
  | getifaddrs (o : Ifaddrs) (parm1 : Addr)
  | scandir (parm1 parm2 parm3 parm4 : Addr)

/-- The application's result pointer. -/
def ListCall.result : ListCall → Addr
  | getaddrinfo _ _ _ _ parm4 => parm4
  | getifaddrs _ parm1 => parm1
  | scandir _ parm2 _ _ => parm2

/-- The values that the native function returns for an error. -/
def ListCall.Fails (ret : UInt32) : ListCall → Prop
  | getaddrinfo .. => ret ≠ 0
  | getifaddrs .. | scandir .. => ret.toInt32.toInt < 0

/-- The glue function of a call. -/
def ListCall.glue (native : Native) (fuel : ℕ) (m : Mem) : ListCall → Option (UInt32 × Mem)
  | getaddrinfo o parm1 parm2 parm3 parm4 => glueGetaddrinfo W env o native fuel parm1 parm2 parm3 parm4 m
  | getifaddrs o parm1 => glueGetifaddrs W env o native fuel parm1 m
  | scandir parm1 parm2 parm3 parm4 => some (glueScandir W env native parm1 parm2 parm3 parm4 m)

/-- The call ends with the error, and memory as it was. -/
def LeavesAlone (native : Native) (m : Mem) (ret : UInt32) (c : ListCall) : Prop :=
  ∃ fuel, c.glue W env native fuel m = some (ret, m)

/-- What `wasm_runtime_addr_native_to_app` returns: the offset in the instance's memory, which stands at `base`,
and null for an address outside of it. -/
structure Offsets (base size : UInt32) : Prop where
  base_ne : base ≠ null
  offset : ∀ a, translate W env false a = if base ≤ a ∧ a - base < size then a - base else null

/-! ## Words only get smaller -/

variable {W env} {base size : UInt32} {m m' : Mem} {p cur : Addr}

theorem Offsets.le (h : Offsets W env base size) (a : Addr) : translate W env false a ≤ a := by
  rw [h.offset]
  split_ifs with ha
  · have hb := ha.1
    rw [UInt32.le_iff_toNat_le, UInt32.toNat_sub_of_le _ _ hb]
    exact Nat.sub_le _ _
  · exact UInt32.zero_le

/-- Only null is its own translation. -/
theorem Offsets.eq_null (h : Offsets W env base size) {a : Addr} (ha : translate W env false a = a) : a = null := by
  rw [h.offset] at ha
  split_ifs at ha with hin
  · exact absurd (show base = null by grind) h.base_ne
  · exact ha.symm

theorem Offsets.translate_null (h : Offsets W env base size) : translate W env false null = null :=
  UInt32.le_antisymm (h.le null) UInt32.zero_le

theorem translateAt_le (h : Offsets W env base size) (q : Addr) : translateAt W env false p m q ≤ m q := by
  by_cases hq : q = p
  · subst hq
    rw [translateAt, Function.update_self]
    exact h.le _
  · rw [translateAt_of_ne hq]
    exact UInt32.le_refl _

theorem fieldsToApp_le (h : Offsets W env base size) (fields : List UInt32) (q : Addr) :
    fieldsToApp W env cur fields m q ≤ m q := by
  induction fields generalizing m with
  | nil => exact UInt32.le_refl _
  | cons field fields ih => exact UInt32.le_trans ih (translateAt_le h q)

theorem listToApp_le (h : Offsets W env base size) {fields : List UInt32} {next : UInt32} {fuel : ℕ}
    (hw : listToApp W env fields next fuel cur m = some m') (q : Addr) : m' q ≤ m q := by
  induction fuel generalizing cur m with
  | zero =>
    unfold listToApp at hw
    split_ifs at hw
    cases hw
    exact UInt32.le_refl _
  | succ fuel ih =>
    unfold listToApp at hw
    split_ifs at hw
    · cases hw
      exact UInt32.le_refl _
    · exact UInt32.le_trans (ih hw) (UInt32.le_trans (translateAt_le h q) (fieldsToApp_le h fields q))

/-- The list of a null pointer is not walked. -/
theorem listToApp_null (fields : List UInt32) (next : UInt32) (fuel : ℕ) :
    listToApp W env fields next fuel null m = some m := by
  unfold listToApp
  rw [if_pos rfl]

/-- Of words that only got smaller, one whose translation is what it was at first was null. -/
theorem null_of_translateAt_eq (h : Offsets W env base size) (hle : ∀ q, m' q ≤ m q)
    (heq : translateAt W env false p m' = m) : m p = null := by
  have hp : translate W env false (m' p) = m p := by
    rw [← heq]
    exact (Function.update_self p (translate W env false (m' p)) m').symm
  have hsame : m' p = m p := UInt32.le_antisymm (hle p) (hp ▸ h.le (m' p))
  exact hsame ▸ h.eq_null (hp.trans hsame.symm)

theorem translateAt_null (h : Offsets W env base size) (hp : m p = null) : translateAt W env false p m = m := by
  unfold translateAt
  rw [hp, h.translate_null, ← hp]
  exact Function.update_eq_self p m

/-! ## Failing calls -/

/-- A walk and the translation of its head leave memory alone exactly when the head is null. -/
theorem walk_leavesAlone_iff (h : Offsets W env base size) (fields : List UInt32) (next : UInt32) (ret : UInt32) :
    (∃ fuel, ((listToApp W env fields next fuel (m p) m).map fun m => (ret, translateAt W env false p m)) =
      some (ret, m)) ↔ m p = null := by
  constructor
  · rintro ⟨fuel, hw⟩
    obtain ⟨m', hm', heq⟩ := Option.map_eq_some_iff.1 hw
    exact null_of_translateAt_eq h (listToApp_le h hm') (Prod.mk.inj heq).2
  · intro hp
    refine ⟨0, ?_⟩
    rw [hp, listToApp_null, Option.map_some, translateAt_null h hp]

theorem getaddrinfo_leavesAlone_iff (h : Offsets W env base size) {native : Native} {ret : UInt32}
    (hnative : ∀ args, native args m = (ret, m)) (o : Addrinfo) (parm1 parm2 parm3 parm4 : Addr) :
    LeavesAlone W env native m ret (.getaddrinfo o parm1 parm2 parm3 parm4) ↔ m parm4 = null := by
  simp only [LeavesAlone, ListCall.glue, glueGetaddrinfo, hnative]
  exact walk_leavesAlone_iff h _ _ ret

/-- A call that fails without storing leaves memory alone exactly when the result pointer was null. -/
theorem leavesAlone_iff (h : Offsets W env base size) {c : ListCall} {native : Native} {ret : UInt32}
    (hfails : c.Fails ret) (hnative : ∀ args, native args m = (ret, m)) :
    LeavesAlone W env native m ret c ↔ m c.result = null := by
  cases c with
  | getaddrinfo o parm1 parm2 parm3 parm4 => exact getaddrinfo_leavesAlone_iff h hnative o parm1 parm2 parm3 parm4
  | getifaddrs o parm1 =>
    simp only [LeavesAlone, ListCall.glue, glueGetifaddrs, hnative]
    exact walk_leavesAlone_iff h _ _ ret
  | scandir parm1 parm2 parm3 parm4 =>
    -- a negative number of entries
    have hcount : loopCount ret = 0 := Int.toNat_of_nonpos (Int.le_of_lt hfails)
    simp only [LeavesAlone, ListCall.glue, glueScandir, hnative, hcount, entriesToApp]
    constructor
    · rintro ⟨-, heq⟩
      exact null_of_translateAt_eq h (fun _ => UInt32.le_refl _) (Prod.mk.inj (Option.some.inj heq)).2
    · intro hp
      have hsame : translateAt W env false parm2 m = m := translateAt_null h hp
      exact ⟨0, by rw [hsame]⟩

/-- An instance with `size` bytes of memory at `base`. -/
def offsetWamr (base size : UInt32) : Wamr where
  getModuleInst := id
  addrAppToNative _ a := if a < size then a + base else null
  addrNativeToApp _ a := if base ≤ a ∧ a - base < size then a - base else null

theorem offsetWamr_offsets {base size : UInt32} (h : base ≠ null) (env : Addr) :
    Offsets (offsetWamr base size) env base size := ⟨h, fun _ => rfl⟩

/-- The offsets in a `struct addrinfo` of the target. -/
def addrinfoOffsets : Addrinfo := ⟨24, 20, 28⟩

/-- `EAI_FAIL` -/
def eaiFail : UInt32 := 4

def lookupCall : ListCall := .getaddrinfo addrinfoOffsets 0x1800 null null 0x2000

theorem lookupCall_fails : lookupCall.Fails eaiFail := show eaiFail ≠ 0 by decide

theorem leavesAlone_nullResult :
    LeavesAlone (offsetWamr 0x1000 0x10000) 1 (fun _ m => (eaiFail, m)) (fun _ => null) eaiFail lookupCall :=
  (leavesAlone_iff (offsetWamr_offsets (by decide) 1) lookupCall_fails fun _ => rfl).2 rfl

/-- A result pointer that still leads to some words of the application. -/
theorem staleResult_not_leavesAlone :
    ¬ ∀ (W : Wamr) (env : Addr) (base size : UInt32) (native : Native) (m : Mem) (ret : UInt32) (c : ListCall),
      Offsets W env base size → c.Fails ret → (∀ args, native args m = (ret, m)) →
        LeavesAlone W env native m ret c := by
  intro h
  have hW : Offsets (offsetWamr 0x1000 0x10000) 1 0x1000 0x10000 := offsetWamr_offsets (by decide) 1
  have halone := h _ 1 _ _ (fun _ m => (eaiFail, m)) (fun _ => 0x3000) eaiFail lookupCall hW lookupCall_fails
    fun _ => rfl
  have hnull := (getaddrinfo_leavesAlone_iff hW (fun _ => rfl) addrinfoOffsets 0x1800 null null 0x2000).1 halone
  exact absurd hnull (by decide)

end VelaWasm.LibcBypass
