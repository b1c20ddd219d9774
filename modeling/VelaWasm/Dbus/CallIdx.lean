/-
What the callback proxies of `dbus.c` share. Each table holds one slot for a registration; a proxy
searches its table for the first slot with the key it was called with, and calls the wasm function
of that slot in the slot's exec env on app addresses. A release proxy then clears the slot's key.
-/
import VelaWasm.Lib.SlotTable
import VelaWasm.Wamr

namespace VelaWasm.Dbus

/-- `DBUS_PENDING_CALL_IDX_MAX` -/
def dbusPendingCallIdxMax : Nat := 64

/-- `DBUS_HANDLER_RESULT_HANDLED` -/
def dbusHandlerResultHandled : UInt32 := 0
/-- `DBUS_HANDLER_RESULT_NEED_MEMORY` -/
def dbusHandlerResultNeedMemory : UInt32 := 2

/-- The call `wasm_runtime_call_indirect_internal` makes: none for element 0. -/
def wasmRuntimeCallIndirectInternal (execEnv : Addr) (elementIndex : UInt32) (argv : List UInt32) :
    Option WasmCall :=
  if elementIndex = 0 then none else some ⟨execEnv, elementIndex, argv⟩

/-- The call of a wasm function in `env` on the app addresses of `args`. -/
def callOnApp (W : Wamr) (env : Addr) (fn : UInt32) (args : List Addr) : Option WasmCall :=
  wasmRuntimeCallIndirectInternal env fn (args.map (W.addrNativeToApp (W.getModuleInst env)))

section

variable {E : Type*} (W : Wamr) (key env : E → Addr) (fn : E → UInt32)

/-- The search loop of a proxy and the call it makes from the slot it stops at. -/
def slotCall (t : List E) (k : Addr) (args : List Addr) : Option (Nat × E × Option WasmCall) :=
  (SlotTable.find key k t).bind fun i => t[i]?.map fun e => (i, e, callOnApp W (env e) (fn e) args)

/-- A message proxy: the call and the handler result, `fallback` when the call fails. `reply` is
what the wasm function leaves in `argv[0]`, `none` if it traps. -/
def messageProxy (fallback : UInt32) (t : List E) (k : Addr) (args : List Addr) (reply : Option UInt32) :
    Option WasmCall × UInt32 :=
  if k = null then (none, dbusHandlerResultHandled)
  else
    match slotCall W key env fn t k args with
    | none => (none, dbusHandlerResultNeedMemory)
    | some (_, _, call) => (call, (call.bind fun _ => reply).getD fallback)

/-- A release proxy: the table with the slot cleared and the call of the free function. -/
def releaseProxy (clear : E → E) (t : List E) (k : Addr) (args : List Addr) : List E × Option WasmCall :=
  if k = null then (t, none)
  else
    match slotCall W key env fn t k args with
    | none => (t, none)
    | some (i, e, call) => (t.set i (clear e), call)

/-- A proxy without a handler result: the call it makes, none when the argument it tests is null. -/
def callProxy (tested : Addr) (t : List E) (k : Addr) (args : List Addr) : Option WasmCall :=
  if tested = null then none else (slotCall W key env fn t k args).bind fun r => r.2.2

/-- What a proxy that returns `dbus_bool_t` makes of the call and of what it leaves in `argv[0]`. -/
def boolReply (call : Option WasmCall) (reply : Option UInt32) : UInt32 := (call.bind fun _ => reply).getD 0

variable {W key env fn} {t : List E} {i : Nat} {e : E}

theorem slotCall_eq (hi : SlotTable.find key (key e) t = some i) (he : t[i]? = some e) (args : List Addr) :
    slotCall W key env fn t (key e) args = some (i, e, callOnApp W (env e) (fn e) args) := by
  rw [slotCall, hi, Option.bind_some, he, Option.map_some]

theorem callProxy_eq {tested : Addr} (htested : tested ≠ null) (hi : SlotTable.find key (key e) t = some i)
    (he : t[i]? = some e) (args : List Addr) :
    callProxy W key env fn tested t (key e) args = callOnApp W (env e) (fn e) args := by
  rw [callProxy, if_neg htested, slotCall_eq hi he]
  rfl

/-- A message proxy calls the function of the slot the search ends in. -/
theorem messageProxy_eq (hk : key e ≠ null) (hi : SlotTable.find key (key e) t = some i) (he : t[i]? = some e)
    (fallback : UInt32) (args : List Addr) (reply : Option UInt32) :
    (messageProxy W key env fn fallback t (key e) args reply).1 = callOnApp W (env e) (fn e) args := by
  rw [messageProxy, if_neg hk, slotCall_eq hi he]

/-- A release proxy calls the function of the slot the search ends in and clears that slot. -/
theorem releaseProxy_eq (hk : key e ≠ null) (hi : SlotTable.find key (key e) t = some i) (he : t[i]? = some e)
    (clear : E → E) (args : List Addr) :
    releaseProxy W key env fn clear t (key e) args = (t.set i (clear e), callOnApp W (env e) (fn e) args) := by
  rw [releaseProxy, if_neg hk, slotCall_eq hi he]

/-- A release proxy clears a slot that holds the key exactly when the search ends there. -/
theorem find_of_releaseProxy {clear : E → E} (hclear : ∀ f, key (clear f) = null) (hk : key e ≠ null)
    (he : t[i]? = some e) {args : List Addr}
    (h : (releaseProxy W key env fn clear t (key e) args).1 = t.set i (clear e)) :
    SlotTable.find key (key e) t = some i := by
  have hlt : i < t.length := (List.getElem?_eq_some_iff.1 he).1
  have hcleared : (t.set i (clear e))[i]? = some (clear e) := List.getElem?_set_self hlt
  rw [releaseProxy, if_neg hk] at h
  cases hf : SlotTable.find key (key e) t with
  | none =>
    exact absurd rfl (SlotTable.find_eq_none.1 hf e (List.mem_of_getElem? he))
  | some j =>
    obtain ⟨f, hj, hfk, -⟩ := SlotTable.find_eq_some.1 hf
    rw [slotCall, hf, Option.bind_some, hj, Option.map_some] at h
    simp only at h
    by_contra hne
    have hji : j ≠ i := fun hji => hne (by rw [hji])
    rw [← h, List.getElem?_set_ne hji, he] at hcleared
    have hkey := hclear e
    rw [← Option.some.inj hcleared] at hkey
    exact hk hkey

/-- A table whose release proxy clears the own slot of every live registration is kept. -/
theorem kept_of_releaseProxy {R : Type*} {slot : R → Option Nat} {entry : R → E} {args : R → List Addr}
    {live : List R} (clear : E → E) (hclear : ∀ f, key (clear f) = null)
    (hkey : ∀ r ∈ live, key (entry r) ≠ null) (hslots : (live.map slot).Nodup)
    (h : ∀ r ∈ live, ∃ i, slot r = some i ∧ t[i]? = some (entry r) ∧
      (releaseProxy W key env fn clear t (key (entry r)) (args r)).1 = t.set i (clear (entry r))) :
    SlotTable.Kept key null slot entry t live := by
  refine ⟨⟨fun r hr => ?_, hkey, hslots⟩, fun r hr => ?_⟩
  · obtain ⟨i, hi, he, -⟩ := h r hr
    exact ⟨i, hi, he⟩
  · obtain ⟨i, hi, he, hrel⟩ := h r hr
    rw [hi]
    exact find_of_releaseProxy hclear (hkey r hr) he hrel

end

end VelaWasm.Dbus
