/-
Removal of filters: `glue_dbus_connection_remove_filter` after `glue_dbus_connection_add_filter`. The
glue installs `dbus_handle_message_func_proxy` and asks libdbus to remove
`dbus_connection_remove_func_proxy`, which it never installs: libdbus finds no filter to remove, and the
slots of both tables stay taken.
-/
import VelaWasm.Dbus.Filter

namespace VelaWasm.Dbus

open VelaWasm.Run VelaWasm.SlotTable

/-! ## The glue and libdbus -/

/-- `dbus_connection_remove_call_idx` -/
structure DbusConnectionRemoveCallIdx where
  connectionRemove : UInt32
  connection : Addr
  data : Addr
  dbusEnv : Addr
  deriving DecidableEq, Repr

/-- The native handlers that the glue passes to libdbus. -/
inductive FilterFunction where
  | dbusHandleMessageFuncProxy
  | dbusConnectionRemoveFuncProxy
  deriving DecidableEq, Repr

/-- A filter in libdbus; its free function is `dbus_free_func_proxy`. -/
structure LibdbusFilter where
  connection : Addr
  function : FilterFunction
  userData : Addr
  deriving DecidableEq, Repr

/-- The two tables, the filters of libdbus, the latest first, and the wasm functions called so far. -/
structure RemoveState where
  handleMessage : List DbusHandleMessageCallIdx
  connectionRemove : List DbusConnectionRemoveCallIdx
  filters : List LibdbusFilter
  calls : List WasmCall

def RemoveState.start : RemoveState where
  handleMessage := List.replicate dbusPendingCallIdxMax ⟨0, 0, null, null, null⟩
  connectionRemove := List.replicate dbusPendingCallIdxMax ⟨0, null, null, null⟩
  filters := []
  calls := []

section

variable (W : Wamr)

/-- `dbus_connection_remove_func_proxy` -/
def dbusConnectionRemoveFuncProxy (t : List DbusConnectionRemoveCallIdx) (conn msg data : Addr)
    (reply : Option UInt32) : Option WasmCall × UInt32 :=
  messageProxy W DbusConnectionRemoveCallIdx.data DbusConnectionRemoveCallIdx.dbusEnv
    DbusConnectionRemoveCallIdx.connectionRemove 0 t data [conn, msg, data] reply

/-- libdbus drops a filter and calls its free function. -/
def RemoveState.drop (s : RemoveState) (r : LibdbusFilter) : RemoveState :=
  { s with
    handleMessage := (dbusFreeFuncProxy W s.handleMessage r.userData).1
    filters := s.filters.erase r
    calls := s.calls ++ (dbusFreeFuncProxy W s.handleMessage r.userData).2.toList }

/-- `dbus_connection_remove_filter`: drop the latest filter with the native function and the data. -/
def dbusConnectionRemoveFilter (s : RemoveState) (connection : Addr) (function : FilterFunction)
    (userData : Addr) : RemoveState :=
  if ⟨connection, function, userData⟩ ∈ s.filters then s.drop W ⟨connection, function, userData⟩ else s

/-- `glue_dbus_connection_add_filter` with the call of libdbus, which may run out of memory. -/
def RemoveState.addFilter (s : RemoveState) (env parm1 : Addr) (parm2 : UInt32) (parm3 : Addr) (parm4 : UInt32)
    (accepted : Bool) : RemoveState :=
  { s with
    handleMessage := (glueDbusConnectionAddFilter s.handleMessage env parm1 parm2 parm3 parm4).1
    filters := if accepted then ⟨parm1, .dbusHandleMessageFuncProxy, parm3⟩ :: s.filters else s.filters }

/-- `glue_dbus_connection_remove_filter` -/
def glueDbusConnectionRemoveFilter (s : RemoveState) (env parm1 : Addr) (parm2 : UInt32) (parm3 : Addr) :
    RemoveState :=
  let connectionRemove := (fill DbusConnectionRemoveCallIdx.data null s.connectionRemove ⟨parm2, parm1, parm3, env⟩).1
  dbusConnectionRemoveFilter W { s with connectionRemove } parm1 .dbusConnectionRemoveFuncProxy parm3

inductive RemoveAction where
  | addFilter (env connection : Addr) (function : UInt32) (userData : Addr) (freeFunction : UInt32)
      (accepted : Bool)
  | removeFilter (env connection : Addr) (function : UInt32) (userData : Addr)
  /-- libdbus finalises a connection and drops one of its filters -/
  | finalize (r : LibdbusFilter)

def removeStep (s : RemoveState) : RemoveAction → Option RemoveState
  | .addFilter env c fn d free accepted => some (s.addFilter env c fn d free accepted)
  | .removeFilter env c fn d => some (glueDbusConnectionRemoveFilter W s env c fn d)
  | .finalize r => if r ∈ s.filters then some (s.drop W r) else none

end

/-! ## Adding and removing -/

/-- The slots of a table that are taken. -/
def occupied {E : Type*} (data : E → Addr) (t : List E) : List Bool := t.map fun e => decide (data e ≠ null)

/-- A filter that is added and then removed is gone, its data is freed once, and the slots it took are
free again. -/
structure Undone (W : Wamr) (s t : RemoveState) (env userData : Addr) (freeFunction : UInt32) : Prop where
  filters : t.filters = s.filters
  freed : t.calls = s.calls ++ (callOnApp W env freeFunction [userData]).toList
  handleMessage : occupied DbusHandleMessageCallIdx.data t.handleMessage =
    occupied DbusHandleMessageCallIdx.data s.handleMessage
  connectionRemove : occupied DbusConnectionRemoveCallIdx.data t.connectionRemove =
    occupied DbusConnectionRemoveCallIdx.data s.connectionRemove

/-- No filter of libdbus runs `dbus_connection_remove_func_proxy`. -/
def NoRemoveProxy (s : RemoveState) : Prop := ∀ r ∈ s.filters, r.function = .dbusHandleMessageFuncProxy

variable {W : Wamr} {s t : RemoveState}

/-- Such a removal takes a slot and nothing else. -/
theorem removeFilter_eq (h : NoRemoveProxy s) (env c : Addr) (fn : UInt32) (d : Addr) :
    glueDbusConnectionRemoveFilter W s env c fn d = { s with
      connectionRemove := (fill DbusConnectionRemoveCallIdx.data null s.connectionRemove ⟨fn, c, d, env⟩).1 } := by
  rw [glueDbusConnectionRemoveFilter, dbusConnectionRemoveFilter, if_neg]
  intro hmem
  cases h _ hmem

theorem noRemoveProxy_drop (h : NoRemoveProxy s) (r : LibdbusFilter) : NoRemoveProxy (s.drop W r) :=
  fun q hq => h q (List.mem_of_mem_erase hq)

theorem noRemoveProxy_addFilter (h : NoRemoveProxy s) (env c : Addr) (fn : UInt32) (d : Addr) (free : UInt32)
    (accepted : Bool) : NoRemoveProxy (s.addFilter env c fn d free accepted) := by
  cases accepted with
  | false => exact h
  | true =>
    intro q hq
    rcases List.mem_cons.1 hq with rfl | hq
    · rfl
    · exact h q hq

theorem noRemoveProxy_step {a : RemoveAction} (h : NoRemoveProxy s) (ht : removeStep W s a = some t) :
    NoRemoveProxy t := by
  cases a with
  | addFilter env c fn d free accepted => cases ht; exact noRemoveProxy_addFilter h env c fn d free accepted
  | removeFilter env c fn d =>
    cases ht
    rw [removeFilter_eq h]
    exact h
  | finalize r =>
    simp only [removeStep] at ht
    split_ifs at ht
    cases ht
    exact noRemoveProxy_drop h r

theorem noRemoveProxy_exec {as : List RemoveAction} (h : exec (removeStep W) .start as = some s) : NoRemoveProxy s :=
  exec_preserves (fun _ _ _ hs ht => noRemoveProxy_step hs ht) (fun _ hr => by cases hr) h

/-- The state after an addition and its removal: the filter is still installed, nothing has been called,
and a slot of each table is taken. -/
theorem removeFilter_addFilter (h : NoRemoveProxy s) (env env' c : Addr) (fn : UInt32) (d : Addr) (free : UInt32)
    (accepted : Bool) :
    glueDbusConnectionRemoveFilter W (s.addFilter env c fn d free accepted) env' c fn d =
      { handleMessage := (glueDbusConnectionAddFilter s.handleMessage env c fn d free).1
        connectionRemove := (fill DbusConnectionRemoveCallIdx.data null s.connectionRemove ⟨fn, c, d, env'⟩).1
        filters := if accepted then ⟨c, .dbusHandleMessageFuncProxy, d⟩ :: s.filters else s.filters
        calls := s.calls } :=
  removeFilter_eq (noRemoveProxy_addFilter h env c fn d free accepted) env' c fn d

/-- A record with data takes the slot it is written to. -/
theorem occupied_fill_ne {E : Type*} {data : E → Addr} {u : List E} {e : E} (hfree : find data null u ≠ none)
    (he : data e ≠ null) : occupied data (fill data null u e).1 ≠ occupied data u := by
  obtain ⟨i, hi⟩ := Option.ne_none_iff_exists'.1 hfree
  obtain ⟨f, hf, hnull, -⟩ := find_eq_some.1 hi
  obtain ⟨hlt, -⟩ := List.getElem?_eq_some_iff.1 hf
  rw [fill, hi]
  intro h
  have hat := congrArg (fun l => l[i]?) h
  simp only [occupied, List.getElem?_map, List.getElem?_set_self hlt, hf, Option.map_some] at hat
  simp [he, hnull] at hat

/-- No removal undoes an addition, whether libdbus has accepted it or has refused it after its slot was
written. -/
theorem removeFilter_never_undoes {as : List RemoveAction} (h : exec (removeStep W) .start as = some s)
    (env env' c : Addr) (fn : UInt32) (d : Addr) (free : UInt32) {accepted : Bool}
    (hadd : accepted = true ∨ d ≠ null ∧ find DbusHandleMessageCallIdx.data null s.handleMessage ≠ none) :
    ¬ Undone W s (glueDbusConnectionRemoveFilter W (s.addFilter env c fn d free accepted) env' c fn d) env d free := by
  intro hu
  rcases hadd with rfl | ⟨hd, hfree⟩
  · have hf := hu.filters
    rw [removeFilter_addFilter (noRemoveProxy_exec h)] at hf
    exact List.cons_ne_self _ _ hf
  · have hm := hu.handleMessage
    rw [removeFilter_addFilter (noRemoveProxy_exec h)] at hm
    exact occupied_fill_ne hfree hd hm

/-- The first addition and removal of a run. -/
theorem removeFilter_never_undoes_first :
    exec (removeStep filterWamr) .start [] = some .start ∧
      ¬ Undone filterWamr .start (glueDbusConnectionRemoveFilter filterWamr
        (RemoveState.start.addFilter 1 0x2000 5 0x3000 6 true) 1 0x2000 5 0x3000) 1 0x3000 6 := by
  have h : exec (removeStep filterWamr) .start [] = some .start := rfl
  exact ⟨h, removeFilter_never_undoes h 1 1 0x2000 5 0x3000 6 (.inl rfl)⟩

theorem removal_keeps_filter :
    ¬ ∀ (W : Wamr) (s : RemoveState) (as : List RemoveAction), exec (removeStep W) .start as = some s →
      ∀ (env c : Addr) (fn : UInt32) (d : Addr) (free : UInt32), d ≠ null →
        find DbusHandleMessageCallIdx.data null s.handleMessage ≠ none →
        Undone W s (glueDbusConnectionRemoveFilter W (s.addFilter env c fn d free true) env c fn d) env d free := by
  intro h
  have hu := h filterWamr .start [] rfl 1 0x2000 5 0x3000 6 (by decide) (by decide)
  exact absurd hu.filters (by decide)

/-! ## Pairs of additions and removals -/

/-- The number of slots that are taken. -/
def taken {E : Type*} (data : E → Addr) (t : List E) : ℕ := t.countP fun e => decide (data e ≠ null)

/-- Writing a record takes a slot as long as there is one. -/
theorem taken_fill {E : Type*} {data : E → Addr} {t : List E} {e : E} (he : data e ≠ null) :
    taken data (fill data null t e).1 = min (taken data t + 1) t.length := by
  unfold fill
  cases hi : find data null t with
  | none =>
    have hall : taken data t = t.length := by
      refine List.countP_eq_length.2 fun f hf => ?_
      simpa using find_eq_none.1 hi f hf
    simp only [hall]
    omega
  | some i =>
    obtain ⟨f, hf, hnull, -⟩ := find_eq_some.1 hi
    obtain ⟨hlt, rfl⟩ := List.getElem?_eq_some_iff.1 hf
    have hset : taken data (t.set i e) = taken data t + 1 := by
      rw [taken, List.countP_set hlt]
      simp [he, hnull, taken]
    have hle : taken data (t.set i e) ≤ (t.set i e).length := List.countP_le_length
    rw [List.length_set] at hle
    simp only
    omega

theorem length_fill {E : Type*} {data : E → Addr} (t : List E) (e : E) : (fill data null t e).1.length = t.length := by
  unfold fill
  split
  · rfl
  · exact List.length_set

/-- `n` additions, each followed by its removal. -/
def addRemove (env c : Addr) (fn : UInt32) (d : Addr) (free : UInt32) : ℕ → List RemoveAction
  | 0 => []
  | n + 1 => .addFilter env c fn d free true :: .removeFilter env c fn d :: addRemove env c fn d free n

/-- Each pair leaves a filter installed and, while there are any, uses up a slot of each table. -/
theorem addRemove_leaks {env c : Addr} {fn : UInt32} {d : Addr} {free : UInt32} (hd : d ≠ null) {n : ℕ}
    (h : NoRemoveProxy s) (ht : exec (removeStep W) s (addRemove env c fn d free n) = some t)
    (hm : taken DbusHandleMessageCallIdx.data s.handleMessage ≤ s.handleMessage.length)
    (hr : taken DbusConnectionRemoveCallIdx.data s.connectionRemove ≤ s.connectionRemove.length) :
    t.filters.length = s.filters.length + n ∧
      taken DbusHandleMessageCallIdx.data t.handleMessage =
        min (taken DbusHandleMessageCallIdx.data s.handleMessage + n) s.handleMessage.length ∧
      taken DbusConnectionRemoveCallIdx.data t.connectionRemove =
        min (taken DbusConnectionRemoveCallIdx.data s.connectionRemove + n) s.connectionRemove.length := by
  induction n generalizing s with
  | zero =>
    cases ht
    omega
  | succ n ih =>
    obtain ⟨u, hu, ht⟩ := exec_cons_some _ ht
    cases hu
    obtain ⟨u, hu, ht⟩ := exec_cons_some _ ht
    rw [removeStep, removeFilter_addFilter h] at hu
    cases hu
    have hproxy : NoRemoveProxy (s.addFilter env c fn d free true) := noRemoveProxy_addFilter h env c fn d free true
    have hmfill : taken DbusHandleMessageCallIdx.data (glueDbusConnectionAddFilter s.handleMessage env c fn d free).1 =
        min (taken DbusHandleMessageCallIdx.data s.handleMessage + 1) s.handleMessage.length := taken_fill hd
    have hrfill : taken DbusConnectionRemoveCallIdx.data
        (fill DbusConnectionRemoveCallIdx.data null s.connectionRemove ⟨fn, c, d, env⟩).1 =
        min (taken DbusConnectionRemoveCallIdx.data s.connectionRemove + 1) s.connectionRemove.length := taken_fill hd
    have hmlen : (glueDbusConnectionAddFilter s.handleMessage env c fn d free).1.length = s.handleMessage.length :=
      length_fill _ _
    have hrlen : (fill DbusConnectionRemoveCallIdx.data null s.connectionRemove ⟨fn, c, d, env⟩).1.length =
        s.connectionRemove.length := length_fill _ _
    have hrest := fun hp hm hr => ih hp ht hm hr
    obtain ⟨hf, hm', hr'⟩ := hrest hproxy (by simp only [hmfill, hmlen]; omega) (by simp only [hrfill, hrlen]; omega)
    simp only [List.length_cons, hmfill, hmlen, hrfill, hrlen, if_true] at hf hm' hr'
    omega

end VelaWasm.Dbus
