/-
The varargs bridges `glue_printf`, `glue_vasprintf` and `glue_sendEventMisightF`, and what they leave of the
argument area. Two of them walk the format a second time on the way back and find the same words, whatever
the words hold by then. `glue_vasprintf` does not walk back.
-/
import VelaWasm.Dbus.ArgsRoundTrip
import VelaWasm.LibcBypass.Varargs
import Mathlib.Data.List.Infix

namespace VelaWasm.LibcBypass

open VelaWasm.Dbus VelaWasm.InPlace

/-! ## The bridges -/

/-- A native function called with the format and the area: what it returns and the memory it leaves. -/
abbrev Callee := Mem → UInt32 × Mem

section

variable (W : Wamr) (env : Addr) (format : List Char) (ap : Addr) (callee : Callee) (m : Mem)

/-- `va_list_string2native`, the call, `va_list_string2app`. -/
def withNativeStrings : UInt32 × Mem :=
  let m := (vaListString2conv W env true format ap m).1
  let (ret, m) := callee m
  (ret, (vaListString2conv W env false format ap m).1)

/-- `glue_printf` -/
def gluePrintf : UInt32 × Mem :=
  if "%.*s".toList <:+: format then (0, m) else withNativeStrings W env format ap callee m

/-- `glue_vasprintf` -/
def glueVasprintf (parm1 : Addr) : UInt32 × Mem :=
  let m := (vaListString2conv W env true format ap m).1
  let (ret, m) := callee m
  (ret, translateAt W env false parm1 m)

/-- `glue_sendEventMisightF` -/
def glueSendEventMisightF : UInt32 × Mem := (0, (withNativeStrings W env format ap callee m).2)

end

inductive Bridge where
  | printf
  | vasprintf (parm1 : Addr)
  | sendEventMisightF
  deriving DecidableEq, Repr

def Bridge.call (W : Wamr) (env : Addr) (format : List Char) (ap : Addr) (callee : Callee) (m : Mem) :
    Bridge → UInt32 × Mem
  | printf => gluePrintf W env format ap callee m
  | vasprintf parm1 => glueVasprintf W env format ap callee m parm1
  | sendEventMisightF => glueSendEventMisightF W env format ap callee m

/-- The words that a walk over the format translates. -/
def stringWords (format : List Char) (ap : Addr) : List Addr :=
  if ap = null then [] else (packedStrings ap.toNat (argKinds false 0 format)).map UInt32.ofNat

/-! ## One walk -/

variable {W : Wamr} {env : Addr} {toNative : Bool} {format : List Char} {ap : Addr} {callee : Callee}

/-- A walk changes memory by the translations it makes. -/
theorem convLoop_mem : ∀ (s : ConvState) (format : List Char) (m : Mem),
    (convLoop W env toNative s format m).1 =
      applyAll (translate W env toNative) (convLoop W env toNative s format m).2 m
  | _, [], _ => rfl
  | ⟨false, longCtr, pos⟩, c :: format, m => by
    unfold convLoop
    split_ifs
    · exact convLoop_mem ⟨true, 0, pos⟩ format m
    · exact convLoop_mem ⟨false, longCtr, pos⟩ format m
  | ⟨true, longCtr, pos⟩, c :: format, m => by
    unfold convLoop
    cases charClass c with
    | flag | half => exact convLoop_mem ⟨true, longCtr, pos⟩ format m
    | size => exact convLoop_mem ⟨true, 1, pos⟩ format m
    | max => exact convLoop_mem ⟨true, 2, pos⟩ format m
    | long => exact convLoop_mem ⟨true, longCtr + 1, pos⟩ format m
    | int => exact convLoop_mem ⟨false, longCtr, _⟩ format m
    | float => exact convLoop_mem ⟨false, longCtr, pos + 8⟩ format m
    | str => exact convLoop_mem ⟨false, longCtr, pos + 4⟩ format (translateAt W env toNative pos m)
    | other => exact convLoop_mem ⟨false, longCtr, pos⟩ format m

/-- Both walks of a bridge translate the same words. -/
theorem vaListString2conv_mem (m : Mem) : (vaListString2conv W env toNative format ap m).1 =
    applyAll (translate W env toNative) (stringWords format ap) m := by
  unfold vaListString2conv stringWords
  split_ifs with h
  · rfl
  · have hslots := @convLoop_slots W env toNative false 0 ap.toNat format m
    rw [UInt32.ofNat_toNat] at hslots
    rw [convLoop_mem, hslots]

/-! ## The area -/

variable {area : List Addr} {m : Mem}

/-- After the second walk each word that the callee kept is as it was. -/
theorem withNativeStrings_keeps (hinv : Function.LeftInverse (translate W env false) (translate W env true))
    (hc : ∀ m, ∀ q ∈ area, (callee m).2 q = m q) {q : Addr} (hq : q ∈ area) :
    (withNativeStrings W env format ap callee m).2 q = m q := by
  unfold withNativeStrings
  simp only [vaListString2conv_mem]
  rw [applyAll_apply, hc _ q hq, applyAll_apply]
  exact hinv.iterate _ (m q)

/-- `strstr` finds the unsupported conversion and nothing is walked. -/
theorem gluePrintf_keeps (hinv : Function.LeftInverse (translate W env false) (translate W env true))
    (hc : ∀ m, ∀ q ∈ area, (callee m).2 q = m q) {q : Addr} (hq : q ∈ area) :
    (gluePrintf W env format ap callee m).2 q = m q := by
  unfold gluePrintf
  split_ifs
  · rfl
  · exact withNativeStrings_keeps hinv hc hq

/-- A word after `glue_vasprintf`. -/
theorem glueVasprintf_apply (hc : ∀ m, ∀ q ∈ area, (callee m).2 q = m q) {q : Addr} (hq : q ∈ area) (parm1 : Addr) :
    (glueVasprintf W env format ap callee m parm1).2 q = (translate W env false)^[[parm1].count q]
      ((translate W env true)^[(stringWords format ap).count q] (m q)) := by
  show applyAll (translate W env false) [parm1] _ q = _
  rw [applyAll_apply, hc _ q hq, vaListString2conv_mem, applyAll_apply]

/-- The translations that a bridge makes of a word of the area leave it as it is. -/
def Bridge.Restores (W : Wamr) (env : Addr) (format : List Char) (ap : Addr) (area : List Addr) (m : Mem) :
    Bridge → Prop
  | vasprintf parm1 => ∀ q ∈ area, (translate W env false)^[[parm1].count q]
      ((translate W env true)^[(stringWords format ap).count q] (m q)) = m q
  | printf | sendEventMisightF => True

instance (W : Wamr) (env : Addr) (format : List Char) (ap : Addr) (area : List Addr) (m : Mem) :
    DecidablePred (Bridge.Restores W env format ap area m)
  | .vasprintf _ => List.decidableBAll _ _
  | .printf | .sendEventMisightF => isTrue trivial

/-- With the strings at different places, none of them where the result goes, `glue_vasprintf` leaves the area
as it was exactly when no string's address is changed by the translation. -/
theorem restores_vasprintf_iff {parm1 : Addr} (hnd : (stringWords format ap).Nodup) (hp : parm1 ∉ area) :
    (Bridge.vasprintf parm1).Restores W env format ap area m ↔
      ∀ q ∈ area, q ∈ stringWords format ap → translate W env true (m q) = m q := by
  refine forall₂_congr fun q hq => ?_
  have hne : parm1 ≠ q := fun h => hp (h ▸ hq)
  rw [List.count_cons_of_ne hne, List.count_nil, hnd.count]
  by_cases hs : q ∈ stringWords format ap
  · simp [hs]
  · simp [hs]

/-- A bridge leaves the area as it was exactly when it is not `glue_vasprintf` or the translations of that do
nothing. -/
theorem bridge_keeps_iff (hinv : Function.LeftInverse (translate W env false) (translate W env true))
    (hc : ∀ m, ∀ q ∈ area, (callee m).2 q = m q) (b : Bridge) :
    (∀ q ∈ area, (b.call W env format ap callee m).2 q = m q) ↔ b.Restores W env format ap area m := by
  cases b with
  | printf => exact iff_of_true (fun q hq => gluePrintf_keeps hinv hc hq) trivial
  | sendEventMisightF => exact iff_of_true (fun q hq => withNativeStrings_keeps hinv hc hq) trivial
  | vasprintf parm1 =>
    refine forall₂_congr fun q hq => ?_
    rw [Bridge.call, glueVasprintf_apply hc hq]

/-- One string in the area. -/
def oneStringMem : Mem := Function.update (fun _ => 0) 0x2000 0x5000

/-- `vprintf` prints four characters and writes nothing. -/
theorem bridge_keeps_printf :
    (Bridge.printf.call (nullWamr 0x1000) 1 "<%s>".toList 0x2000 (fun m => (4, m)) oneStringMem).2 0x2000 = 0x5000 ∧
      (Bridge.printf.call (nullWamr 0x1000) 1 "<%s>".toList 0x2000 (fun m => (4, m)) oneStringMem).2 0x2004 = 0 := by
  have hkeeps : ∀ q ∈ [0x2000, 0x2004], (Bridge.printf.call (nullWamr 0x1000) 1 "<%s>".toList 0x2000
      (fun m => (4, m)) oneStringMem).2 q = oneStringMem q :=
    (bridge_keeps_iff (nullWamr_leftInverse (by decide) 1) (fun _ _ _ => rfl) .printf).2 trivial
  exact ⟨hkeeps 0x2000 (by decide), hkeeps 0x2004 (by decide)⟩

/-- `vasprintf` stores the address of its result; the string of the area is left with its native address. -/
theorem vasprintf_not_keeps :
    ¬ ∀ (W : Wamr) (env : Addr) (format : List Char) (ap : Addr) (callee : Callee) (area : List Addr) (m : Mem)
      (b : Bridge), Function.LeftInverse (translate W env false) (translate W env true) →
      Function.RightInverse (translate W env false) (translate W env true) →
      translate W env true null = null → translate W env false null = null →
      (∀ m, ∀ q ∈ area, (callee m).2 q = m q) →
      ∀ q ∈ area, (b.call W env format ap callee m).2 q = m q := by
  intro h
  have hkeep : ∀ m : Mem, ∀ q ∈ [(0x2000 : Addr)], (Function.update m 0x3000 0x9000) q = m q := by
    intro m q hq
    rw [List.mem_singleton.1 hq]
    exact Function.update_of_ne (by decide) _ _
  have := h (nullWamr 0x1000) 1 "<%s>".toList 0x2000 (fun m => (4, Function.update m 0x3000 0x9000)) [0x2000]
    oneStringMem (.vasprintf 0x3000) (nullWamr_leftInverse (by decide) 1) (nullWamr_rightInverse (by decide) 1)
    (by decide) (by decide) hkeep 0x2000 List.mem_cons_self
  revert this
  decide

end VelaWasm.LibcBypass
