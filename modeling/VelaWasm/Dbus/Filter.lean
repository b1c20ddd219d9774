/-
Message filters: `glue_dbus_connection_add_filter` and the two proxies libdbus calls for a filter,
over every sequence of additions and releases. The proxies are handed no more than the filter's
data, so two filters that share a data pointer are told apart by neither of them.
-/
import VelaWasm.Dbus.CallIdx
import VelaWasm.Lib.Run

namespace VelaWasm.Dbus

open VelaWasm.Run VelaWasm.SlotTable

/-! ## The glue -/

/-- `dbus_handle_message_call_idx` -/
structure DbusHandleMessageCallIdx where
  handleMessage : UInt32
  freeFunc : UInt32
  connection : Addr
  data : Addr
  dbusEnv : Addr
  deriving DecidableEq, Repr

variable (W : Wamr)

/-- `dbus_handle_message_func_proxy` -/
def dbusHandleMessageFuncProxy (t : List DbusHandleMessageCallIdx) (conn msg data : Addr)
    (reply : Option UInt32) : Option WasmCall × UInt32 :=
  messageProxy W DbusHandleMessageCallIdx.data DbusHandleMessageCallIdx.dbusEnv
    DbusHandleMessageCallIdx.handleMessage 0 t data [conn, msg, data] reply

/-- `dbus_free_func_proxy` -/
def dbusFreeFuncProxy (t : List DbusHandleMessageCallIdx) (data : Addr) :
    List DbusHandleMessageCallIdx × Option WasmCall :=
  releaseProxy W DbusHandleMessageCallIdx.data DbusHandleMessageCallIdx.dbusEnv
    DbusHandleMessageCallIdx.freeFunc (fun e => { e with data := null }) t data [data]

/-- `glue_dbus_connection_add_filter` up to its call of libdbus. -/
def glueDbusConnectionAddFilter (t : List DbusHandleMessageCallIdx) (env parm1 : Addr) (parm2 : UInt32)
    (parm3 : Addr) (parm4 : UInt32) : List DbusHandleMessageCallIdx × Option Nat :=
  fill DbusHandleMessageCallIdx.data null t ⟨parm2, parm4, parm1, parm3, env⟩

/-! ## Runs -/

/-- A filter installed in libdbus, as it was given to the glue, and the slot the glue wrote. -/
structure Filter where
  connection : Addr
  function : UInt32
  userData : Addr
  freeFunction : UInt32
  env : Addr
  slot : Option Nat
  deriving DecidableEq, Repr

def Filter.entry (r : Filter) : DbusHandleMessageCallIdx :=
  ⟨r.function, r.freeFunction, r.connection, r.userData, r.env⟩

structure FilterState where
  callIdx : List DbusHandleMessageCallIdx
  filters : List Filter

inductive FilterAction where
  /-- the application adds a filter; libdbus installs it or runs out of memory -/
  | addFilter (env connection : Addr) (function : UInt32) (userData : Addr) (freeFunction : UInt32)
      (accepted : Bool)
  /-- libdbus drops a filter and calls its free proxy -/
  | release (i : Nat)

def FilterState.start : FilterState :=
  ⟨List.replicate dbusPendingCallIdxMax ⟨0, 0, null, null, null⟩, []⟩

/-- One call of the glue with non-null data, or the release of one of the installed filters. -/
def filterStep (s : FilterState) : FilterAction → Option FilterState
  | .addFilter env c fn d free accepted =>
    if d = null then none
    else
      let (t, slot) := glueDbusConnectionAddFilter s.callIdx env c fn d free
      some ⟨t, if accepted then s.filters ++ [⟨c, fn, d, free, env, slot⟩] else s.filters⟩
  | .release i =>
    s.filters[i]?.map fun r => ⟨(dbusFreeFuncProxy W s.callIdx r.userData).1, s.filters.eraseIdx i⟩

/-- Every installed filter is run with the function it was added with, in its env, and its release
calls its own free function and clears its own slot, which no other filter shares. -/
structure FiltersFaithful (s : FilterState) : Prop where
  message : ∀ r ∈ s.filters, ∀ msg reply,
    (dbusHandleMessageFuncProxy W s.callIdx r.connection msg r.userData reply).1 =
      callOnApp W r.env r.function [r.connection, msg, r.userData]
  release : ∀ r ∈ s.filters, ∃ i, r.slot = some i ∧ s.callIdx[i]? = some r.entry ∧
    dbusFreeFuncProxy W s.callIdx r.userData =
      (s.callIdx.set i { r.entry with data := null }, callOnApp W r.env r.freeFunction [r.userData])
  slots : (s.filters.map Filter.slot).Nodup

/-- No slot before the first free one holds the data of an accepted filter, and no later one is an
installed filter's with the data that is written. -/
def FreshData (s : FilterState) : FilterAction → Prop
  | .addFilter env c fn d free accepted =>
    Fresh DbusHandleMessageCallIdx.data null Filter.slot Filter.entry s.callIdx s.filters ⟨fn, free, c, d, env⟩
      accepted
  | .release _ => True

instance (s : FilterState) : DecidablePred (FreshData s)
  | .addFilter .. => inferInstanceAs (Decidable (Fresh ..))
  | .release _ => isTrue trivial

/-! ## The invariant -/

/-- Each installed filter is in its slot, and a search for its data ends there. -/
abbrev FiltersKept (s : FilterState) : Prop :=
  Kept DbusHandleMessageCallIdx.data null Filter.slot Filter.entry s.callIdx s.filters

variable {W} {s t : FilterState}

theorem filtersKept_start : FiltersKept FilterState.start := kept_replicate _ _ _ _

theorem dbusFreeFuncProxy_eq (h : FiltersKept s) {r : Filter} (hr : r ∈ s.filters) :
    ∃ i, r.slot = some i ∧ s.callIdx[i]? = some r.entry ∧
      dbusFreeFuncProxy W s.callIdx r.userData =
        (s.callIdx.set i { r.entry with data := null }, callOnApp W r.env r.freeFunction [r.userData]) := by
  obtain ⟨i, hi, he, hf⟩ := h.find hr
  exact ⟨i, hi, he, releaseProxy_eq (h.recorded.key_ne r hr) hf he _ _⟩

theorem filtersFaithful_of_kept (h : FiltersKept s) : FiltersFaithful W s := by
  refine ⟨fun r hr msg reply => ?_, fun r hr => dbusFreeFuncProxy_eq h hr, h.recorded.nodup⟩
  obtain ⟨i, -, he, hf⟩ := h.find hr
  exact messageProxy_eq (h.recorded.key_ne r hr) hf he _ _ _

theorem filtersKept_of_faithful (hkey : ∀ r ∈ s.filters, r.userData ≠ null) (h : FiltersFaithful W s) :
    FiltersKept s := by
  have hrel : ∀ r ∈ s.filters, ∃ i, r.slot = some i ∧ s.callIdx[i]? = some r.entry ∧
      (dbusFreeFuncProxy W s.callIdx r.userData).1 = s.callIdx.set i { r.entry with data := null } := by
    intro r hr
    obtain ⟨i, hi, he, heq⟩ := h.release r hr
    exact ⟨i, hi, he, congrArg Prod.fst heq⟩
  exact kept_of_releaseProxy (fun e => { e with data := null }) (fun _ => rfl) hkey h.slots hrel

/-- The filter an accepted call installs, with the slot the glue wrote. -/
def installed (s : FilterState) (env c : Addr) (fn : UInt32) (d : Addr) (free : UInt32) : Filter :=
  ⟨c, fn, d, free, env, (glueDbusConnectionAddFilter s.callIdx env c fn d free).2⟩

theorem filterStep_add {env c : Addr} {fn : UInt32} {d : Addr} {free : UInt32} {accepted : Bool}
    (ht : filterStep W s (.addFilter env c fn d free accepted) = some t) :
    d ≠ null ∧ t = ⟨(glueDbusConnectionAddFilter s.callIdx env c fn d free).1,
      if accepted then s.filters ++ [installed s env c fn d free] else s.filters⟩ := by
  simp only [filterStep] at ht
  by_cases hd : d = null
  · rw [if_pos hd] at ht
    cases ht
  · rw [if_neg hd] at ht
    exact ⟨hd, (Option.some.inj ht).symm⟩

theorem filtersKept_add {env c : Addr} {fn : UInt32} {d : Addr} {free : UInt32} {accepted : Bool}
    (h : FiltersKept s) (ht : filterStep W s (.addFilter env c fn d free accepted) = some t) :
    FiltersKept t ↔ FreshData s (.addFilter env c fn d free accepted) := by
  obtain ⟨hd, rfl⟩ := filterStep_add ht
  exact h.fill_iff (r := installed s env c fn d free) rfl fun _ => hd

theorem filtersKept_release {i : Nat} (h : FiltersKept s) (ht : filterStep W s (.release i) = some t) :
    FiltersKept t := by
  obtain ⟨r, hr, rfl⟩ := Option.map_eq_some_iff.1 ht
  have hmem := List.mem_of_getElem? hr
  obtain ⟨j, hj, -, heq⟩ := dbusFreeFuncProxy_eq (W := W) h hmem
  rw [heq]
  exact h.release (List.eraseIdx_sublist _ _) hmem (h.recorded.not_mem_eraseIdx hr) hj rfl

theorem filtersKept_step {a : FilterAction} (h : FiltersKept s) (hok : FreshData s a)
    (ht : filterStep W s a = some t) : FiltersKept t := by
  cases a with
  | addFilter env c fn d free accepted => exact (filtersKept_add h ht).2 hok
  | release i => exact filtersKept_release h ht

/-- An addition that is not fresh leaves a filter that is not run faithfully. -/
theorem not_filtersFaithful_step {a : FilterAction} (h : FiltersKept s) (hok : ¬ FreshData s a)
    (ht : filterStep W s a = some t) : ¬ FiltersFaithful W t := by
  cases a with
  | addFilter env c fn d free accepted =>
    refine fun hf => hok ((filtersKept_add h ht).1 (filtersKept_of_faithful ?_ hf))
    obtain ⟨hd, rfl⟩ := filterStep_add ht
    exact forall_mem_accepted h.recorded.key_ne (fun _ => hd)
  | release i => exact absurd trivial hok

/-! ## Dispatch -/

/-- Along a run of additions and releases every filter is run faithfully, exactly when every addition
is fresh. -/
theorem filtersFaithful_iff_fresh {as : List FilterAction} (h : exec (filterStep W) FilterState.start as = some s) :
    Along (filterStep W) (FiltersFaithful W) FilterState.start as ↔
      Meets (filterStep W) FreshData FilterState.start as :=
  along_iff_meets (fun _ hk => filtersFaithful_of_kept hk) (fun _ _ _ hk hok ht => filtersKept_step hk hok ht)
    (fun _ _ _ hk hok ht => not_filtersFaithful_step hk hok ht) filtersKept_start h

def filterWamr : Wamr := .linear id fun _ => 0x1000

/-- Two filters with data of their own, and the data of the first again after its release. -/
def ownData : List FilterAction :=
  [.addFilter 1 0x2000 5 0x3000 6 true, .addFilter 1 0x2000 7 0x3400 8 true, .release 0,
    .addFilter 2 0x2400 9 0x3000 10 true]

theorem filtersFaithful_ownData :
    ∃ s, exec (filterStep filterWamr) FilterState.start ownData = some s ∧
      Along (filterStep filterWamr) (FiltersFaithful filterWamr) FilterState.start ownData :=
  ⟨_, rfl, (filtersFaithful_iff_fresh rfl).2 (by decide)⟩

/-- Two filters on one connection with the same data. -/
def sharedData : List FilterAction :=
  [.addFilter 1 0x2000 5 0x3000 6 true, .addFilter 1 0x2000 7 0x3000 8 true]

/-- With the data shared, the second filter runs the function of the first. -/
theorem second_filter_misdirected :
    ¬ ∀ (W : Wamr) (as : List FilterAction) (s : FilterState), exec (filterStep W) FilterState.start as = some s →
      s.filters.length < dbusPendingCallIdxMax → FiltersFaithful W s := by
  intro h
  have hf := h filterWamr sharedData _ rfl (by decide)
  have hm := hf.message ⟨0x2000, 7, 0x3000, 8, 1, some 1⟩ (by decide) 0x5000 none
  exact absurd hm (by decide)

end VelaWasm.Dbus
