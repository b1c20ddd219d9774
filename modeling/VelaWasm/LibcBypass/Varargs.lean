/-
`va_list_string2conv`, which translates the string pointers of a varargs area in place before or after
a native call. The copies in `libc_bypass.c`, `dbus.c` and `dfx_wrapper.c` are the same. It walks the
area without ever aligning an 8-byte argument.
-/
import VelaWasm.LibcBypass.Format
import VelaWasm.Wamr

namespace VelaWasm.LibcBypass

/-- The locals of the walk. -/
structure ConvState where
  might : Bool
  longCtr : Nat
  pos : Addr

variable (W : Wamr) (env : Addr) (toNative : Bool)

/-- The loop over the format: the memory it leaves, and where it translated a word. -/
def convLoop : ConvState → List Char → Mem → Mem × List Addr
  | _, [], m => (m, [])
  | ⟨false, longCtr, pos⟩, c :: format, m =>
    if c = '%' then convLoop ⟨true, 0, pos⟩ format m else convLoop ⟨false, longCtr, pos⟩ format m
  | ⟨true, longCtr, pos⟩, c :: format, m =>
    match charClass c with
    | .flag | .half => convLoop ⟨true, longCtr, pos⟩ format m
    | .size => convLoop ⟨true, 1, pos⟩ format m
    | .max => convLoop ⟨true, 2, pos⟩ format m
    | .long => convLoop ⟨true, longCtr + 1, pos⟩ format m
    | .int => convLoop ⟨false, longCtr, if longCtr < 2 then pos + 4 else pos + 8⟩ format m
    | .float => convLoop ⟨false, longCtr, pos + 8⟩ format m
    | .str =>
      let (m, slots) := convLoop ⟨false, longCtr, pos + 4⟩ format (translateAt W env toNative pos m)
      (m, pos :: slots)
    | .other => convLoop ⟨false, longCtr, pos⟩ format m

/-- `va_list_string2conv` -/
def vaListString2conv (format : List Char) (ap : Addr) (m : Mem) : Mem × List Addr :=
  if ap = null then (m, []) else convLoop W env toNative ⟨false, 0, ap⟩ format m

variable {W env toNative}

/-- The walk translates the strings of the packed layout. -/
theorem convLoop_slots : ∀ (might : Bool) (longCtr p : Nat) (format : List Char) (m : Mem),
    (convLoop W env toNative ⟨might, longCtr, UInt32.ofNat p⟩ format m).2 =
      (packedStrings p (argKinds might longCtr format)).map UInt32.ofNat
  | _, _, _, [], _ => rfl
  | false, longCtr, p, c :: format, m => by
    unfold convLoop argKinds
    split_ifs
    · exact convLoop_slots true 0 p format m
    · exact convLoop_slots false longCtr p format m
  | true, longCtr, p, c :: format, m => by
    have h4 : UInt32.ofNat p + 4 = UInt32.ofNat (p + 4) := (UInt32.ofNat_add p 4).symm
    have h8 : UInt32.ofNat p + 8 = UInt32.ofNat (p + 8) := (UInt32.ofNat_add p 8).symm
    unfold convLoop argKinds
    cases charClass c with
    | flag | half => exact convLoop_slots true longCtr p format m
    | size => exact convLoop_slots true 1 p format m
    | max => exact convLoop_slots true 2 p format m
    | long => exact convLoop_slots true (longCtr + 1) p format m
    | other => exact convLoop_slots false longCtr p format m
    | float =>
      simp only [h8]
      exact convLoop_slots false longCtr (p + 8) format m
    | int =>
      simp only
      split_ifs
      · rw [h4]
        exact convLoop_slots false longCtr (p + 4) format m
      · rw [h8]
        exact convLoop_slots false longCtr (p + 8) format m
    | str =>
      simp only [h4]
      refine congrArg (UInt32.ofNat p :: ·) ?_
      exact convLoop_slots false longCtr (p + 4) format _

end VelaWasm.LibcBypass
