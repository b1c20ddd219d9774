/-
The watch, timeout and dispatch-status functions of several connections together, over every sequence of
calls that set them and of releases by libdbus. As long as each call writes a record with data of its
own, the proxies of a connection call the functions last set on it, whatever is replaced or released for
the others.
-/
import VelaWasm.Dbus.DispatchStatus
import VelaWasm.Dbus.Watch
import VelaWasm.Lib.Run

namespace VelaWasm.Dbus

open VelaWasm.Run VelaWasm.SlotTable

/-! ## Runs -/

structure ConnectionState where
  watch : ConnTable DbusSetWatchFunc
  timeout : ConnTable DbusTimeoutCallIdx
  status : ConnTable DbusStatusFuncIdx

def ConnectionState.start : ConnectionState where
  watch := ⟨List.replicate dbusPendingCallIdxMax ⟨0, 0, 0, 0, null, null⟩, []⟩
  timeout := ⟨List.replicate dbusPendingCallIdxMax ⟨0, 0, 0, 0, null, null, null⟩, []⟩
  status := ⟨List.replicate dbusPendingCallIdxMax ⟨0, 0, null, null, null⟩, []⟩

inductive ConnectionAction where
  /-- the application sets the watch functions of a connection; libdbus accepts them or runs out of
  memory -/
  | setWatchFunctions (env connection : Addr) (add remove toggled : UInt32) (data : Addr) (freeData : UInt32)
      (accepted : Bool)
  | setTimeoutFunctions (env connection : Addr) (add remove toggled : UInt32) (data : Addr) (freeData : UInt32)
      (accepted : Bool)
  /-- the application sets the dispatch-status function of a connection -/
  | setDispatchStatusFunction (env connection : Addr) (function : UInt32) (data : Addr) (freeData : UInt32)
  /-- libdbus frees the data of a connection that it finalises -/
  | finalizeWatch (connection : Addr)
  | finalizeTimeout (connection : Addr)
  | finalizeDispatchStatus (connection : Addr)

variable (W : Wamr)

/-- One call of the glue with a connection and data that are not null, or of a release proxy. -/
def connectionStep (s : ConnectionState) : ConnectionAction → Option ConnectionState
  | .setWatchFunctions env c add remove toggled d free accepted =>
    if c = null ∨ d = null then none
    else
      some { s with
        watch := s.watch.setFunctions (freeWatchData W) c (watchFunc env add remove toggled d free)
          (glueDbusConnectionSetWatchFunctions s.watch.callIdx env add remove toggled d free) accepted }
  | .setTimeoutFunctions env c add remove toggled d free accepted =>
    if c = null ∨ d = null then none
    else
      some { s with
        timeout := s.timeout.setFunctions (freeTimeoutData W) c (timeoutFunc env c add remove toggled d free)
          (glueDbusConnectionSetTimeoutFunctions s.timeout.callIdx env c add remove toggled d free) accepted }
  | .setDispatchStatusFunction env c fn d free =>
    if c = null ∨ d = null then none
    else
      some { s with
        status := s.status.setFunctions (freeStatusData W) c (statusFunc env c fn d free)
          (glueDbusConnectionSetDispatchStatusFunction s.status.callIdx env c fn d free) true }
  | .finalizeWatch c => (s.watch.finalize (freeWatchData W) c).map fun watch => { s with watch }
  | .finalizeTimeout c => (s.timeout.finalize (freeTimeoutData W) c).map fun timeout => { s with timeout }
  | .finalizeDispatchStatus c => (s.status.finalize (freeStatusData W) c).map fun status => { s with status }

/-! ## The property -/

/-- The proxies of every connection call the functions that are set on it. -/
structure CallsOwnFunctions (s : ConnectionState) : Prop where
  watch : ∀ r ∈ s.watch.functions, ∀ watch reply,
    (dbusAddWatchFuncProxy W s.watch.callIdx watch r.entry.data reply).1 =
        callOnApp W r.entry.dbusEnv r.entry.addWatchFuncIdx [watch, r.entry.data] ∧
      dbusRemoveWatchFuncProxy W s.watch.callIdx watch r.entry.data =
        callOnApp W r.entry.dbusEnv r.entry.removeWatchFuncIdx [watch, r.entry.data] ∧
      dbusWatchToggledFuncProxy W s.watch.callIdx watch r.entry.data =
        callOnApp W r.entry.dbusEnv r.entry.watchToggledFuncIdx [watch, r.entry.data]
  timeout : ∀ r ∈ s.timeout.functions, ∀ timeout reply, timeout ≠ null →
    (dbusAddTimeoutProxy W s.timeout.callIdx timeout r.entry.data reply).1 =
        callOnApp W r.entry.dbusEnv r.entry.addTimeout [timeout, r.entry.data] ∧
      dbusRemoveTimeoutProxy W s.timeout.callIdx timeout r.entry.data =
        callOnApp W r.entry.dbusEnv r.entry.removeTimeout [timeout, r.entry.data] ∧
      dbusTimeoutToggledProxy W s.timeout.callIdx timeout r.entry.data =
        callOnApp W r.entry.dbusEnv r.entry.timeoutToggle [timeout, r.entry.data]
  status : ∀ r ∈ s.status.functions, ∀ newStatus,
    dbusDispatchStatusProxy W s.status.callIdx r.connection newStatus r.entry.data =
      statusCall W r.entry r.connection newStatus r.entry.data

/-- Each call of the glue writes a record that is found and hides no other. -/
def FreshCall (s : ConnectionState) : ConnectionAction → Prop
  | .setWatchFunctions env c add remove toggled d free accepted =>
    FreshFunctions DbusSetWatchFunc.data DbusSetWatchFunc.clear s.watch c (watchFunc env add remove toggled d free)
      accepted
  | .setTimeoutFunctions env c add remove toggled d free accepted =>
    FreshFunctions DbusTimeoutCallIdx.data DbusTimeoutCallIdx.clear s.timeout c
      (timeoutFunc env c add remove toggled d free) accepted
  | .setDispatchStatusFunction env c fn d free => FreshStatus s.status (statusFunc env c fn d free)
  | _ => True

instance (s : ConnectionState) : DecidablePred (FreshCall s)
  | .setWatchFunctions .. => inferInstanceAs (Decidable (FreshFunctions ..))
  | .setTimeoutFunctions .. => inferInstanceAs (Decidable (FreshFunctions ..))
  | .setDispatchStatusFunction .. => inferInstanceAs (Decidable (FreshStatus ..))
  | .finalizeWatch _ | .finalizeTimeout _ | .finalizeDispatchStatus _ => isTrue trivial

/-! ## The invariant -/

structure ConnectionsKept (s : ConnectionState) : Prop where
  watch : TableKept DbusSetWatchFunc.data s.watch
  timeout : TableKept DbusTimeoutCallIdx.data s.timeout
  status : StatusKept s.status

variable {W} {s t : ConnectionState}

theorem connectionsKept_start : ConnectionsKept .start := by
  refine ⟨⟨kept_replicate _ _ _ _, List.nodup_nil⟩, ⟨kept_replicate _ _ _ _, List.nodup_nil⟩,
    ⟨⟨kept_replicate _ _ _ _, List.nodup_nil⟩, fun r hr => (by cases hr), fun r hr => (by cases hr),
      fun j f hf hne => ?_⟩⟩
  rw [List.eq_of_mem_replicate (List.mem_of_getElem? hf)] at hne
  exact absurd rfl hne

theorem callsOwnFunctions_of_kept (h : ConnectionsKept s) : CallsOwnFunctions W s := by
  refine ⟨fun r hr watch reply => ?_, fun r hr timeout reply ht => ?_, fun r hr newStatus => ?_⟩
  · exact ⟨watchProxy_eq h.watch hr _ watch, watchProxy_eq h.watch hr _ watch, watchProxy_eq h.watch hr _ watch⟩
  · exact ⟨timeoutProxy_eq h.timeout hr _ ht, timeoutProxy_eq h.timeout hr _ ht, timeoutProxy_eq h.timeout hr _ ht⟩
  · exact dispatchStatusProxy_eq h.status hr newStatus

theorem connectionsKept_step {a : ConnectionAction} (h : ConnectionsKept s) (hok : FreshCall s a)
    (ht : connectionStep W s a = some t) : ConnectionsKept t := by
  cases a with
  | setWatchFunctions env c add remove toggled d free accepted =>
    simp only [connectionStep] at ht
    split_ifs at ht with hn
    cases ht
    rw [not_or] at hn
    exact ⟨tableKept_setWatchFunctions h.watch hn.2 hok, h.timeout, h.status⟩
  | setTimeoutFunctions env c add remove toggled d free accepted =>
    simp only [connectionStep] at ht
    split_ifs at ht with hn
    cases ht
    rw [not_or] at hn
    exact ⟨h.watch, tableKept_setTimeoutFunctions h.timeout hn.2 hok, h.status⟩
  | setDispatchStatusFunction env c fn d free =>
    simp only [connectionStep] at ht
    split_ifs at ht with hn
    cases ht
    rw [not_or] at hn
    exact ⟨h.watch, h.timeout, statusKept_setFunctions h.status hn.1 rfl hn.2 hok⟩
  | finalizeWatch c =>
    obtain ⟨u, hu, rfl⟩ := Option.map_eq_some_iff.1 ht
    exact ⟨tableKept_finalizeWatch h.watch hu, h.timeout, h.status⟩
  | finalizeTimeout c =>
    obtain ⟨u, hu, rfl⟩ := Option.map_eq_some_iff.1 ht
    exact ⟨h.watch, tableKept_finalizeTimeout h.timeout hu, h.status⟩
  | finalizeDispatchStatus c =>
    obtain ⟨u, hu, rfl⟩ := Option.map_eq_some_iff.1 ht
    exact ⟨h.watch, h.timeout, statusKept_finalize h.status hu⟩

/-! ## Dispatch -/

/-- In a run whose calls are all fresh, the proxies of every connection call its own functions. The converse fails: a
dispatch-status function that is replaced under its own data is not fresh, although its proxy stays the right one. -/
theorem callsOwnFunctions_of_fresh {as : List ConnectionAction}
    (hm : Meets (connectionStep W) FreshCall .start as) (h : exec (connectionStep W) .start as = some s) :
    CallsOwnFunctions W s :=
  callsOwnFunctions_of_kept <|
    exec_invariant (fun _ _ _ hk hok ht => connectionsKept_step hk hok ht) connectionsKept_start hm h

def connectionWamr : Wamr := .linear id fun _ => 0x1000

/-- Two connections with data of their own; the first one's functions are replaced, under the same data
in the case of its watches, and the second one's are released. -/
def replacedAndReleased : List ConnectionAction :=
  [.setWatchFunctions 1 0x2000 5 6 7 0x3000 8 true, .setWatchFunctions 1 0x2400 9 10 11 0x3400 12 true,
    .setWatchFunctions 1 0x2000 13 14 15 0x3000 16 true, .finalizeWatch 0x2400,
    .setTimeoutFunctions 1 0x2000 5 6 7 0x3000 8 true, .setTimeoutFunctions 1 0x2400 9 10 11 0x3400 12 true,
    .finalizeTimeout 0x2000, .setDispatchStatusFunction 1 0x2000 5 0x3000 6,
    .setDispatchStatusFunction 1 0x2000 7 0x3800 8, .setDispatchStatusFunction 1 0x2400 9 0x3400 10,
    .finalizeDispatchStatus 0x2000]

theorem callsOwnFunctions_replacedAndReleased :
    ∃ s, exec (connectionStep connectionWamr) .start replacedAndReleased = some s ∧
      CallsOwnFunctions connectionWamr s := by
  have hm : Meets (connectionStep connectionWamr) FreshCall .start replacedAndReleased := by decide
  exact ⟨_, rfl, callsOwnFunctions_of_fresh hm rfl⟩

/-- A dispatch-status function is replaced under its own data, in the slot behind its own. -/
def replacedStatus : List ConnectionAction :=
  [.setDispatchStatusFunction 1 0x2000 5 0x3000 6, .setDispatchStatusFunction 1 0x2000 7 0x3000 8]

example : ¬ Meets (connectionStep connectionWamr) FreshCall .start replacedStatus := by decide

example : ∃ s, exec (connectionStep connectionWamr) .start replacedStatus = some s ∧
    CallsOwnFunctions connectionWamr s := by
  refine ⟨_, rfl, ⟨fun r hr => (by cases hr), fun r hr => (by cases hr), fun r hr newStatus => ?_⟩⟩
  obtain rfl := List.mem_singleton.1 hr
  rfl

/-- The watch functions of a connection are replaced, under the same data, in a slot before theirs. -/
def replacedBefore : List ConnectionAction :=
  [.setWatchFunctions 1 0x2000 5 6 7 0x3000 8 true, .setWatchFunctions 1 0x2400 9 10 11 0x3400 12 true,
    .finalizeWatch 0x2000, .setWatchFunctions 1 0x2400 13 14 15 0x3400 16 true]

/-- The release of the old functions clears the slot of the new ones, and the old ones are called. -/
theorem replaced_functions_called :
    ¬ ∀ (W : Wamr) (as : List ConnectionAction) (s : ConnectionState), exec (connectionStep W) .start as = some s →
      s.watch.functions.length < dbusPendingCallIdxMax → s.timeout.functions.length < dbusPendingCallIdxMax →
      s.status.functions.length < dbusPendingCallIdxMax → CallsOwnFunctions W s := by
  intro h
  have hf := h connectionWamr replacedBefore _ rfl (by decide) (by decide) (by decide)
  have hw := hf.watch ⟨0x2400, ⟨13, 14, 15, 16, 0x3400, 1⟩, some 0⟩ (by decide) 0x5000 none
  exact absurd hw.1 (by decide)

end VelaWasm.Dbus
