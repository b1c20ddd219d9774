/-
The watch and timeout functions of a connection: `glue_dbus_connection_set_watch_functions` and
`glue_dbus_connection_set_timeout_functions`, each with the three proxies libdbus calls for the functions
and the one it frees their data through. All of them search for the data.
-/
import VelaWasm.Dbus.ConnTable

namespace VelaWasm.Dbus

open VelaWasm.SlotTable

variable (W : Wamr)

/-! ## Watches -/

/-- `dbus_set_watch_func` -/
structure DbusSetWatchFunc where
  addWatchFuncIdx : UInt32
  removeWatchFuncIdx : UInt32
  watchToggledFuncIdx : UInt32
  connectionSetWatchFreeDataIdx : UInt32
  data : Addr
  dbusEnv : Addr
  deriving DecidableEq, Repr

/-- What the three watch proxies share: the call of the function `fn` of a slot. -/
def watchProxy (fn : DbusSetWatchFunc → UInt32) (t : List DbusSetWatchFunc) (watch data : Addr) : Option WasmCall :=
  callProxy W DbusSetWatchFunc.data DbusSetWatchFunc.dbusEnv fn data t data [watch, data]

/-- `dbus_add_watch_func_proxy` -/
def dbusAddWatchFuncProxy (t : List DbusSetWatchFunc) (watch data : Addr) (reply : Option UInt32) :
    Option WasmCall × UInt32 :=
  let call := watchProxy W DbusSetWatchFunc.addWatchFuncIdx t watch data
  (call, boolReply call reply)

/-- `dbus_remove_watch_func_proxy` -/
def dbusRemoveWatchFuncProxy (t : List DbusSetWatchFunc) (watch data : Addr) : Option WasmCall :=
  watchProxy W DbusSetWatchFunc.removeWatchFuncIdx t watch data

/-- `dbus_watch_toggled_func_proxy` -/
def dbusWatchToggledFuncProxy (t : List DbusSetWatchFunc) (watch data : Addr) : Option WasmCall :=
  watchProxy W DbusSetWatchFunc.watchToggledFuncIdx t watch data

/-- The slot as the release proxy leaves it. -/
def DbusSetWatchFunc.clear (e : DbusSetWatchFunc) : DbusSetWatchFunc := { e with data := null }

/-- `dbus_connection_set_watch_free_data_proxy` -/
def dbusConnectionSetWatchFreeDataProxy (t : List DbusSetWatchFunc) (data : Addr) :
    List DbusSetWatchFunc × Option WasmCall :=
  releaseProxy W DbusSetWatchFunc.data DbusSetWatchFunc.dbusEnv DbusSetWatchFunc.connectionSetWatchFreeDataIdx
    DbusSetWatchFunc.clear t data [data]

/-- The record that `glue_dbus_connection_set_watch_functions` writes. -/
def watchFunc (env : Addr) (parm2 parm3 parm4 : UInt32) (parm5 : Addr) (parm6 : UInt32) : DbusSetWatchFunc :=
  ⟨parm2, parm3, parm4, parm6, parm5, env⟩

/-- `glue_dbus_connection_set_watch_functions` up to its call of libdbus. -/
def glueDbusConnectionSetWatchFunctions (t : List DbusSetWatchFunc) (env : Addr) (parm2 parm3 parm4 : UInt32)
    (parm5 : Addr) (parm6 : UInt32) : List DbusSetWatchFunc × Option Nat :=
  fill DbusSetWatchFunc.data null t (watchFunc env parm2 parm3 parm4 parm5 parm6)

/-- libdbus frees the data of the functions recorded as `e`. -/
def freeWatchData (t : List DbusSetWatchFunc) (e : DbusSetWatchFunc) : List DbusSetWatchFunc :=
  (dbusConnectionSetWatchFreeDataProxy W t e.data).1

/-! ## Timeouts -/

/-- `dbus_timeout_call_idx`; its `timeout` is the connection. -/
structure DbusTimeoutCallIdx where
  addTimeout : UInt32
  removeTimeout : UInt32
  timeoutToggle : UInt32
  timeoutFree : UInt32
  timeout : Addr
  data : Addr
  dbusEnv : Addr
  deriving DecidableEq, Repr

/-- What the three timeout proxies share; they test the timeout, not the data. -/
def timeoutProxy (fn : DbusTimeoutCallIdx → UInt32) (t : List DbusTimeoutCallIdx) (timeout data : Addr) :
    Option WasmCall :=
  callProxy W DbusTimeoutCallIdx.data DbusTimeoutCallIdx.dbusEnv fn timeout t data [timeout, data]

/-- `dbus_add_timeout_proxy` -/
def dbusAddTimeoutProxy (t : List DbusTimeoutCallIdx) (timeout data : Addr) (reply : Option UInt32) :
    Option WasmCall × UInt32 :=
  let call := timeoutProxy W DbusTimeoutCallIdx.addTimeout t timeout data
  (call, boolReply call reply)

/-- `dbus_remove_timeout_proxy` -/
def dbusRemoveTimeoutProxy (t : List DbusTimeoutCallIdx) (timeout data : Addr) : Option WasmCall :=
  timeoutProxy W DbusTimeoutCallIdx.removeTimeout t timeout data

/-- `dbus_timeout_toggled_proxy` -/
def dbusTimeoutToggledProxy (t : List DbusTimeoutCallIdx) (timeout data : Addr) : Option WasmCall :=
  timeoutProxy W DbusTimeoutCallIdx.timeoutToggle t timeout data

/-- The slot as the release proxy leaves it. -/
def DbusTimeoutCallIdx.clear (e : DbusTimeoutCallIdx) : DbusTimeoutCallIdx := { e with data := null }

/-- `dbus_timeout_free_func_proxy` -/
def dbusTimeoutFreeFuncProxy (t : List DbusTimeoutCallIdx) (data : Addr) :
    List DbusTimeoutCallIdx × Option WasmCall :=
  releaseProxy W DbusTimeoutCallIdx.data DbusTimeoutCallIdx.dbusEnv DbusTimeoutCallIdx.timeoutFree
    DbusTimeoutCallIdx.clear t data [data]

/-- The record that `glue_dbus_connection_set_timeout_functions` writes. -/
def timeoutFunc (env parm1 : Addr) (parm2 parm3 parm4 : UInt32) (parm5 : Addr) (parm6 : UInt32) :
    DbusTimeoutCallIdx :=
  ⟨parm2, parm3, parm4, parm6, parm1, parm5, env⟩

/-- `glue_dbus_connection_set_timeout_functions` up to its call of libdbus. -/
def glueDbusConnectionSetTimeoutFunctions (t : List DbusTimeoutCallIdx) (env parm1 : Addr)
    (parm2 parm3 parm4 : UInt32) (parm5 : Addr) (parm6 : UInt32) : List DbusTimeoutCallIdx × Option Nat :=
  fill DbusTimeoutCallIdx.data null t (timeoutFunc env parm1 parm2 parm3 parm4 parm5 parm6)

/-- libdbus frees the data of the functions recorded as `e`. -/
def freeTimeoutData (t : List DbusTimeoutCallIdx) (e : DbusTimeoutCallIdx) : List DbusTimeoutCallIdx :=
  (dbusTimeoutFreeFuncProxy W t e.data).1

/-! ## What a kept table calls -/

variable {W}

theorem freeWatchData_eq {t : List DbusSetWatchFunc} {e : DbusSetWatchFunc} {i : Nat} (hd : e.data ≠ null)
    (hi : find DbusSetWatchFunc.data e.data t = some i) (he : t[i]? = some e) : freeWatchData W t e = t.set i e.clear :=
  congrArg Prod.fst (releaseProxy_eq hd hi he DbusSetWatchFunc.clear _)

theorem freeTimeoutData_eq {t : List DbusTimeoutCallIdx} {e : DbusTimeoutCallIdx} {i : Nat} (hd : e.data ≠ null)
    (hi : find DbusTimeoutCallIdx.data e.data t = some i) (he : t[i]? = some e) :
    freeTimeoutData W t e = t.set i e.clear :=
  congrArg Prod.fst (releaseProxy_eq hd hi he DbusTimeoutCallIdx.clear _)

/-- The watch proxies call the functions that are set on the connection whose data they are handed. -/
theorem watchProxy_eq {s : ConnTable DbusSetWatchFunc} (h : TableKept DbusSetWatchFunc.data s)
    {r : ConnFunctions DbusSetWatchFunc} (hr : r ∈ s.functions) (fn : DbusSetWatchFunc → UInt32) (watch : Addr) :
    watchProxy W fn s.callIdx watch r.entry.data = callOnApp W r.entry.dbusEnv (fn r.entry) [watch, r.entry.data] := by
  obtain ⟨i, -, he, hi⟩ := h.kept.find hr
  exact callProxy_eq (h.kept.recorded.key_ne r hr) hi he _

/-- So do the timeout proxies, for a timeout that is not null. -/
theorem timeoutProxy_eq {s : ConnTable DbusTimeoutCallIdx} (h : TableKept DbusTimeoutCallIdx.data s)
    {r : ConnFunctions DbusTimeoutCallIdx} (hr : r ∈ s.functions) (fn : DbusTimeoutCallIdx → UInt32) {timeout : Addr}
    (ht : timeout ≠ null) : timeoutProxy W fn s.callIdx timeout r.entry.data =
      callOnApp W r.entry.dbusEnv (fn r.entry) [timeout, r.entry.data] := by
  obtain ⟨i, -, he, hi⟩ := h.kept.find hr
  exact callProxy_eq ht hi he _

section

variable {s t : ConnTable DbusSetWatchFunc} {c : Addr} {e : DbusSetWatchFunc}

theorem tableKept_setWatchFunctions {accepted : Bool} (h : TableKept DbusSetWatchFunc.data s) (hd : e.data ≠ null)
    (hok : FreshFunctions DbusSetWatchFunc.data DbusSetWatchFunc.clear s c e accepted) :
    TableKept DbusSetWatchFunc.data
      (s.setFunctions (freeWatchData W) c e (fill DbusSetWatchFunc.data null s.callIdx e) accepted) := by
  refine tableKept_setFunctions DbusSetWatchFunc.clear (fun _ => ?_) (fun _ _ _ hd hi he => ?_) h hd hok
  · rfl
  · exact freeWatchData_eq hd hi he

theorem tableKept_finalizeWatch (h : TableKept DbusSetWatchFunc.data s)
    (ht : s.finalize (freeWatchData W) c = some t) : TableKept DbusSetWatchFunc.data t := by
  refine tableKept_finalize DbusSetWatchFunc.clear (fun _ => ?_) (fun _ _ _ hd hi he => ?_) h ht
  · rfl
  · exact freeWatchData_eq hd hi he

end

section

variable {s t : ConnTable DbusTimeoutCallIdx} {c : Addr} {e : DbusTimeoutCallIdx}

theorem tableKept_setTimeoutFunctions {accepted : Bool} (h : TableKept DbusTimeoutCallIdx.data s)
    (hd : e.data ≠ null)
    (hok : FreshFunctions DbusTimeoutCallIdx.data DbusTimeoutCallIdx.clear s c e accepted) :
    TableKept DbusTimeoutCallIdx.data
      (s.setFunctions (freeTimeoutData W) c e (fill DbusTimeoutCallIdx.data null s.callIdx e) accepted) := by
  refine tableKept_setFunctions DbusTimeoutCallIdx.clear (fun _ => ?_) (fun _ _ _ hd hi he => ?_) h hd hok
  · rfl
  · exact freeTimeoutData_eq hd hi he

theorem tableKept_finalizeTimeout (h : TableKept DbusTimeoutCallIdx.data s)
    (ht : s.finalize (freeTimeoutData W) c = some t) : TableKept DbusTimeoutCallIdx.data t := by
  refine tableKept_finalize DbusTimeoutCallIdx.clear (fun _ => ?_) (fun _ _ _ hd hi he => ?_) h ht
  · rfl
  · exact freeTimeoutData_eq hd hi he

end

end VelaWasm.Dbus
