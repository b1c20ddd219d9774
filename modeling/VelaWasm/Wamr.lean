/-
What the glue code takes from its surroundings: 32-bit addresses and words, the memory they
address, the address translations of a WAMR module instance, and the calls it makes back into wasm
through `wasm_runtime_call_indirect`.
-/
import Mathlib.Logic.Function.Basic
import Mathlib.Tactic.Common

namespace VelaWasm

/-- `uintptr_t` of the 32-bit target: a native address, an app address, a WAMR handle or a table
index handed over as a pointer. -/
abbrev Addr := UInt32

/-- The null pointer. -/
abbrev null : Addr := 0

/-- The words of the address space, one at each aligned address. -/
abbrev Mem := Addr → UInt32

/-- The WAMR calls behind `get_module_inst`, `addr_app_to_native` and `addr_native_to_app`. -/
structure Wamr where
  getModuleInst : Addr → Addr
  addrAppToNative : Addr → Addr → Addr
  addrNativeToApp : Addr → Addr → Addr

/-- A call of element `elementIndex` of the wasm table in `execEnv`. -/
structure WasmCall where
  execEnv : Addr
  elementIndex : UInt32
  argv : List UInt32
  deriving DecidableEq, Repr

/-- Instances that all translate with `app = native - base` modulo 2^32, each with its own base. -/
def Wamr.linear (inst base : Addr → Addr) : Wamr where
  getModuleInst := inst
  addrAppToNative i app := app + base i
  addrNativeToApp i native := native - base i

section

variable (W : Wamr) (env : Addr) (toNative : Bool)

/-- The translation of an address in the env, in the given direction. -/
def translate (a : Addr) : Addr :=
  if toNative then W.addrAppToNative (W.getModuleInst env) a else W.addrNativeToApp (W.getModuleInst env) a

/-- Translate the word at `p`. -/
def translateAt (p : Addr) (m : Mem) : Mem := Function.update m p (translate W env toNative (m p))

variable {W env toNative}

theorem translateAt_of_ne {p q : Addr} {m : Mem} (h : q ≠ p) : translateAt W env toNative p m q = m q :=
  Function.update_of_ne h _ _

end

theorem Wamr.linear_leftInverse (inst base : Addr → Addr) (env : Addr) :
    Function.LeftInverse (translate (.linear inst base) env false) (translate (.linear inst base) env true) := fun a => by
  simp [translate, Wamr.linear]

theorem Wamr.linear_rightInverse (inst base : Addr → Addr) (env : Addr) :
    Function.RightInverse (translate (.linear inst base) env false) (translate (.linear inst base) env true) := fun a => by
  simp [translate, Wamr.linear]

end VelaWasm
