/-
`glue_sendmsg` and `glue_recvmsg`, which translate the pointers of the application's `struct msghdr` for the native
call and back. The name and the control buffer are translated when their lengths are not 0, and `recvmsg` changes
these lengths in between.
-/
import VelaWasm.Dbus.ArgsRoundTrip
import VelaWasm.Lib.InPlace
import VelaWasm.Wamr

namespace VelaWasm.LibcBypass

open VelaWasm.Dbus VelaWasm.InPlace

/-! ## The calls -/

/-- `struct msghdr`; the vector that `msg_iov` leads to is in memory. -/
structure Msghdr where
  msgName : Addr
  msgNamelen : UInt32
  msgIov : Addr
  msgIovlen : UInt32
  msgControl : Addr
  msgControllen : UInt32
  msgFlags : UInt32
  deriving DecidableEq, Repr

/-- `msg_iov[i].iov_base` -/
def iovBase (iov : Addr) (i : ℕ) : Addr := iov + 8 * UInt32.ofNat i

/-- The bases of the header's vector. -/
def Msghdr.iovBases (hdr : Msghdr) : List Addr := (List.range hdr.msgIovlen.toNat).map (iovBase hdr.msgIov)

section

variable (W : Wamr) (env : Addr) (toNative : Bool)

/-- The loops over the vector, from entry `i` on. -/
def iovConv (iov : Addr) : ℕ → ℕ → Mem → Mem
  | 0, _, m => m
  | n + 1, i, m => iovConv iov n (i + 1) (translateAt W env toNative (iovBase iov i) m)

/-- A pointer with a length. -/
def sizedConv (p : Addr) (len : UInt32) : Addr := if p ≠ null ∧ 0 < len then translate W env toNative p else p

/-- `glue_msghdr_begin` -/
def glueMsghdrBegin (hdr : Msghdr) (m : Mem) : Msghdr × Mem :=
  let hdr := { hdr with msgIov := translate W env true hdr.msgIov }
  let m := iovConv W env true hdr.msgIov hdr.msgIovlen.toNat 0 m
  let hdr := { hdr with msgName := sizedConv W env true hdr.msgName hdr.msgNamelen }
  ({ hdr with msgControl := sizedConv W env true hdr.msgControl hdr.msgControllen }, m)

/-- `glue_msghdr_end` -/
def glueMsghdrEnd (hdr : Msghdr) (m : Mem) : Msghdr × Mem :=
  let m := iovConv W env false hdr.msgIov hdr.msgIovlen.toNat 0 m
  let hdr := { hdr with msgIov := translate W env false hdr.msgIov }
  let hdr := { hdr with msgName := sizedConv W env false hdr.msgName hdr.msgNamelen }
  ({ hdr with msgControl := sizedConv W env false hdr.msgControl hdr.msgControllen }, m)

/-- `sendmsg` or `recvmsg`, on a socket and with flags: what it returns, and the header and the memory it leaves. -/
abbrev NativeMsg := UInt32 → Msghdr → UInt32 → Mem → UInt32 × Msghdr × Mem

/-- The native call between the two translations. -/
def withNativeMsghdr (native : NativeMsg) (parm1 : UInt32) (hdr : Msghdr) (parm3 : UInt32) (m : Mem) :
    UInt32 × Msghdr × Mem :=
  let (hdr, m) := glueMsghdrBegin W env hdr m
  let (ret, hdr, m) := native parm1 hdr parm3 m
  (ret, glueMsghdrEnd W env hdr m)

/-- `glue_sendmsg` -/
def glueSendmsg (sendmsg : NativeMsg) (parm1 : UInt32) (hdr : Msghdr) (parm3 : UInt32) (m : Mem) :
    UInt32 × Msghdr × Mem := withNativeMsghdr W env sendmsg parm1 hdr parm3 m

/-- `glue_recvmsg` -/
def glueRecvmsg (recvmsg : NativeMsg) (parm1 : UInt32) (hdr : Msghdr) (parm3 : UInt32) (m : Mem) :
    UInt32 × Msghdr × Mem := withNativeMsghdr W env recvmsg parm1 hdr parm3 m

end

/-! ## The property -/

/-- A native call leaves the pointers of the header and of its vector. -/
structure NativeMsg.KeepsPointers (native : NativeMsg) : Prop where
  name : ∀ fd hdr flags m, (native fd hdr flags m).2.1.msgName = hdr.msgName
  iov : ∀ fd hdr flags m, (native fd hdr flags m).2.1.msgIov = hdr.msgIov
  iovlen : ∀ fd hdr flags m, (native fd hdr flags m).2.1.msgIovlen = hdr.msgIovlen
  control : ∀ fd hdr flags m, (native fd hdr flags m).2.1.msgControl = hdr.msgControl
  bases : ∀ fd hdr flags m, ∀ q ∈ hdr.iovBases, (native fd hdr flags m).2.2 q = m q

section

variable (W : Wamr) (env : Addr)

/-- The header and the vector that it leads to, for the application. -/
def Msghdr.nativeIov (hdr : Msghdr) : Msghdr := { hdr with msgIov := translate W env true hdr.msgIov }

/-- After a call the application's header has its pointers back. -/
structure PointersSurvive (hdr : Msghdr) (m : Mem) (after : Msghdr) (m' : Mem) : Prop where
  iov : after.msgIov = hdr.msgIov
  name : after.msgName = hdr.msgName
  control : after.msgControl = hdr.msgControl
  bases : ∀ q ∈ (hdr.nativeIov W env).iovBases, m' q = m q

/-- A pointer is null, or both its lengths are 0 or neither is, or the translation leaves it as it is. -/
def LengthKept (p : Addr) (before after : UInt32) : Prop :=
  p = null ∨ (0 < before ↔ 0 < after) ∨ translate W env true p = p

instance (p : Addr) (before after : UInt32) : Decidable (LengthKept W env p before after) :=
  inferInstanceAs (Decidable (_ ∨ _ ∨ _))

/-- The lengths that the native call is given and leaves, for the name and for the control buffer. -/
def LengthsKept (native : NativeMsg) (parm1 : UInt32) (hdr : Msghdr) (parm3 : UInt32) (m : Mem) : Prop :=
  let called := glueMsghdrBegin W env hdr m
  let left := (native parm1 called.1 parm3 called.2).2.1
  LengthKept W env hdr.msgName hdr.msgNamelen left.msgNamelen ∧
    LengthKept W env hdr.msgControl hdr.msgControllen left.msgControllen

instance (native : NativeMsg) (parm1 : UInt32) (hdr : Msghdr) (parm3 : UInt32) (m : Mem) :
    Decidable (LengthsKept W env native parm1 hdr parm3 m) :=
  inferInstanceAs (Decidable (_ ∧ _))

end

variable {W : Wamr} {env : Addr} {toNative : Bool} {native : NativeMsg} {hdr : Msghdr} {m : Mem}
  {parm1 parm3 : UInt32}

theorem iovConv_eq {iov : Addr} {n i : ℕ} :
    iovConv W env toNative iov n i m = applyAll (translate W env toNative) ((List.range' i n).map (iovBase iov)) m := by
  induction n generalizing i m with
  | zero => rfl
  | succ n ih =>
    rw [List.range'_succ, List.map_cons, applyAll_cons]
    exact ih

section

variable (hinv : Function.LeftInverse (translate W env false) (translate W env true))
  (hinv' : Function.LeftInverse (translate W env true) (translate W env false))
  (hnull : translate W env false null = null)

include hinv hinv' hnull

/-- A pointer there and back. -/
theorem sizedConv_back_iff {p : Addr} {before after : UInt32} :
    sizedConv W env false (sizedConv W env true p before) after = p ↔ LengthKept W env p before after := by
  have hback : translate W env false p = p ↔ translate W env true p = p :=
    ⟨fun h => by rw [← h, hinv', h], fun h => by rw [← h, hinv, h]⟩
  unfold sizedConv LengthKept
  by_cases hp : p = null
  · subst hp
    simp
  have hp' : translate W env true p ≠ null := fun h => hp (by rw [← hinv p, h, hnull])
  by_cases hb : 0 < before
  · by_cases ha : 0 < after
    · simp [hp, hp', hb, ha, hinv p]
    · simp [hp, hb, ha]
  · by_cases ha : 0 < after
    · simp [hp, hb, ha, hback]
    · simp [hp, hb, ha]

/-- What the translation back makes of the header and the vector that the translation of `hdr` has given, their
lengths changed. -/
theorem glueMsghdrEnd_survive_iff {left : Msghdr} {m' : Mem}
    (hname : left.msgName = sizedConv W env true hdr.msgName hdr.msgNamelen)
    (hiov : left.msgIov = translate W env true hdr.msgIov) (hlen : left.msgIovlen = hdr.msgIovlen)
    (hcontrol : left.msgControl = sizedConv W env true hdr.msgControl hdr.msgControllen)
    (hbases : ∀ q ∈ (hdr.nativeIov W env).iovBases, m' q = (glueMsghdrBegin W env hdr m).2 q) :
    PointersSurvive W env hdr m (glueMsghdrEnd W env left m').1 (glueMsghdrEnd W env left m').2 ↔
      LengthKept W env hdr.msgName hdr.msgNamelen left.msgNamelen ∧
        LengthKept W env hdr.msgControl hdr.msgControllen left.msgControllen := by
  have hnameBack : (glueMsghdrEnd W env left m').1.msgName = hdr.msgName ↔
      LengthKept W env hdr.msgName hdr.msgNamelen left.msgNamelen := by
    show sizedConv W env false left.msgName left.msgNamelen = hdr.msgName ↔ _
    rw [hname, sizedConv_back_iff hinv hinv' hnull]
  have hcontrolBack : (glueMsghdrEnd W env left m').1.msgControl = hdr.msgControl ↔
      LengthKept W env hdr.msgControl hdr.msgControllen left.msgControllen := by
    show sizedConv W env false left.msgControl left.msgControllen = hdr.msgControl ↔ _
    rw [hcontrol, sizedConv_back_iff hinv hinv' hnull]
  constructor
  · exact fun h => ⟨hnameBack.1 h.name, hcontrolBack.1 h.control⟩
  · rintro ⟨hn, hc⟩
    refine ⟨?_, hnameBack.2 hn, hcontrolBack.2 hc, fun q hq => ?_⟩
    · show translate W env false left.msgIov = hdr.msgIov
      rw [hiov]
      exact hinv hdr.msgIov
    · -- both loops translate the same entries
      show iovConv W env false left.msgIov left.msgIovlen.toNat 0 m' q = m q
      rw [hiov, hlen, iovConv_eq, applyAll_apply, hbases q hq]
      show (translate W env false)^[_] (iovConv W env true _ _ 0 m q) = m q
      rw [iovConv_eq, applyAll_apply]
      exact hinv.iterate _ (m q)

/-- After a call that keeps the pointers the application has its own back exactly when each of the two lengths is 0
after it as before. -/
theorem withNativeMsghdr_survive_iff (hn : native.KeepsPointers) :
    PointersSurvive W env hdr m (withNativeMsghdr W env native parm1 hdr parm3 m).2.1
        (withNativeMsghdr W env native parm1 hdr parm3 m).2.2 ↔
      LengthsKept W env native parm1 hdr parm3 m :=
  glueMsghdrEnd_survive_iff hinv hinv' hnull (hn.name _ _ _ _) (hn.iov _ _ _ _) (hn.iovlen _ _ _ _)
    (hn.control _ _ _ _) (hn.bases parm1 (glueMsghdrBegin W env hdr m).1 parm3 (glueMsghdrBegin W env hdr m).2)

/-- Both calls. -/
theorem msghdr_survives_iff {sendmsg recvmsg : NativeMsg} (hs : sendmsg.KeepsPointers) (hr : recvmsg.KeepsPointers) :
    (PointersSurvive W env hdr m (glueSendmsg W env sendmsg parm1 hdr parm3 m).2.1
        (glueSendmsg W env sendmsg parm1 hdr parm3 m).2.2 ↔ LengthsKept W env sendmsg parm1 hdr parm3 m) ∧
    (PointersSurvive W env hdr m (glueRecvmsg W env recvmsg parm1 hdr parm3 m).2.1
        (glueRecvmsg W env recvmsg parm1 hdr parm3 m).2.2 ↔ LengthsKept W env recvmsg parm1 hdr parm3 m) :=
  ⟨withNativeMsghdr_survive_iff hinv hinv' hnull hs, withNativeMsghdr_survive_iff hinv hinv' hnull hr⟩

end

/-- A native call that stores the two lengths and no flags. -/
def storesLengths (namelen controllen : UInt32) : NativeMsg := fun _ hdr _ m =>
  (0, { hdr with msgNamelen := namelen, msgControllen := controllen, msgFlags := 0 }, m)

theorem storesLengths_keeps (namelen controllen : UInt32) : (storesLengths namelen controllen).KeepsPointers :=
  ⟨fun _ _ _ _ => rfl, fun _ _ _ _ => rfl, fun _ _ _ _ => rfl, fun _ _ _ _ => rfl, fun _ _ _ _ _ _ => rfl⟩

/-- A header with a name, one block and no control buffer. -/
def namedMsghdr : Msghdr := ⟨0x4000, 28, 0x5000, 1, null, 0, 0⟩

/-- An IPv4 name in a buffer for any. -/
theorem msghdr_survives_named :
    PointersSurvive (nullWamr 0x1000) 1 namedMsghdr (fun _ => 0x7000)
        (glueSendmsg (nullWamr 0x1000) 1 (storesLengths 28 0) 3 namedMsghdr 0 fun _ => 0x7000).2.1
        (glueSendmsg (nullWamr 0x1000) 1 (storesLengths 28 0) 3 namedMsghdr 0 fun _ => 0x7000).2.2 ∧
      PointersSurvive (nullWamr 0x1000) 1 namedMsghdr (fun _ => 0x7000)
        (glueRecvmsg (nullWamr 0x1000) 1 (storesLengths 16 0) 3 namedMsghdr 0 fun _ => 0x7000).2.1
        (glueRecvmsg (nullWamr 0x1000) 1 (storesLengths 16 0) 3 namedMsghdr 0 fun _ => 0x7000).2.2 := by
  have hinv := nullWamr_leftInverse (show (0x1000 : UInt32) ≠ 0 by decide) 1
  have hinv' := nullWamr_rightInverse (show (0x1000 : UInt32) ≠ 0 by decide) 1
  constructor
  · exact (msghdr_survives_iff hinv hinv' (by decide) (storesLengths_keeps 28 0) (storesLengths_keeps 16 0)).1.2
      (by decide)
  · exact (msghdr_survives_iff hinv hinv' (by decide) (storesLengths_keeps 28 0) (storesLengths_keeps 16 0)).2.2
      (by decide)

/-- A connected socket has no name to tell. -/
theorem connected_not_survives :
    ¬ ∀ (W : Wamr) (env : Addr) (recvmsg : NativeMsg) (parm1 : UInt32) (hdr : Msghdr) (parm3 : UInt32) (m : Mem),
      Function.LeftInverse (translate W env false) (translate W env true) →
      Function.LeftInverse (translate W env true) (translate W env false) →
      translate W env true null = null → translate W env false null = null → recvmsg.KeepsPointers →
      PointersSurvive W env hdr m (glueRecvmsg W env recvmsg parm1 hdr parm3 m).2.1
        (glueRecvmsg W env recvmsg parm1 hdr parm3 m).2.2 := by
  intro h
  have := (h (nullWamr 0x1000) 1 (storesLengths 0 0) 3 namedMsghdr 0 (fun _ => 0x7000)
    (nullWamr_leftInverse (by decide) 1) (nullWamr_rightInverse (by decide) 1) (by decide) (by decide)
    (storesLengths_keeps 0 0)).name
  revert this
  decide

end VelaWasm.LibcBypass
