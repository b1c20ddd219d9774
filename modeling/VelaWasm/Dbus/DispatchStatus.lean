/-
The dispatch-status function of a connection. Its table is filled, and searched by the status proxy,
under the connection, while the release proxy searches for the data and leaves it in the slot it clears.
A connection's function is found, and its release clears its own slot, as long as each call of the glue
brings data that no earlier slot holds, cleared ones included, and no other connection has.
-/
import VelaWasm.Dbus.ConnTable

namespace VelaWasm.Dbus

open VelaWasm.SlotTable

/-! ## The glue -/

/-- `dbus_status_func_idx` -/
structure DbusStatusFuncIdx where
  statusFuncIdx : UInt32
  freeDataIdx : UInt32
  connection : Addr
  data : Addr
  dbusEnv : Addr
  deriving DecidableEq, Repr

variable (W : Wamr)

/-- The call of the status function recorded as `e`. -/
def statusCall (e : DbusStatusFuncIdx) (connection : Addr) (newStatus : UInt32) (data : Addr) : Option WasmCall :=
  wasmRuntimeCallIndirectInternal e.dbusEnv e.statusFuncIdx
    [W.addrNativeToApp (W.getModuleInst e.dbusEnv) connection, newStatus,
      W.addrNativeToApp (W.getModuleInst e.dbusEnv) data]

/-- `dbus_dispatch_status_proxy` -/
def dbusDispatchStatusProxy (t : List DbusStatusFuncIdx) (connection : Addr) (newStatus : UInt32) (data : Addr) :
    Option WasmCall :=
  if data = null then none
  else
    (find DbusStatusFuncIdx.connection connection t).bind fun i =>
      t[i]?.bind fun e => statusCall W e connection newStatus data

/-- The slot as the release proxy leaves it. -/
def DbusStatusFuncIdx.clear (e : DbusStatusFuncIdx) : DbusStatusFuncIdx := { e with connection := null }

/-- `dbus_connection_set_dispatch_status_free_data` -/
def dbusConnectionSetDispatchStatusFreeData (t : List DbusStatusFuncIdx) (data : Addr) :
    List DbusStatusFuncIdx × Option WasmCall :=
  releaseProxy W DbusStatusFuncIdx.data DbusStatusFuncIdx.dbusEnv DbusStatusFuncIdx.freeDataIdx
    DbusStatusFuncIdx.clear t data [data]

/-- The record that `glue_dbus_connection_set_dispatch_status_function` writes. -/
def statusFunc (env parm1 : Addr) (parm2 : UInt32) (parm3 : Addr) (parm4 : UInt32) : DbusStatusFuncIdx :=
  ⟨parm2, parm4, parm1, parm3, env⟩

/-- `glue_dbus_connection_set_dispatch_status_function` up to its call of libdbus. -/
def glueDbusConnectionSetDispatchStatusFunction (t : List DbusStatusFuncIdx) (env parm1 : Addr) (parm2 : UInt32)
    (parm3 : Addr) (parm4 : UInt32) : List DbusStatusFuncIdx × Option Nat :=
  fill DbusStatusFuncIdx.connection null t (statusFunc env parm1 parm2 parm3 parm4)

/-- libdbus frees the data of the function recorded as `e`. -/
def freeStatusData (t : List DbusStatusFuncIdx) (e : DbusStatusFuncIdx) : List DbusStatusFuncIdx :=
  (dbusConnectionSetDispatchStatusFreeData W t e.data).1

/-! ## The invariant -/

/-- There is a free slot; no slot before it holds the data, and no later one is a connection's with the
data. -/
def FreshStatus (s : ConnTable DbusStatusFuncIdx) (e : DbusStatusFuncIdx) : Prop :=
  find DbusStatusFuncIdx.connection null s.callIdx ≠ none ∧
    ∀ i ∈ find DbusStatusFuncIdx.connection null s.callIdx,
      Behind DbusStatusFuncIdx.data ConnFunctions.slot ConnFunctions.entry s.functions e i ∧
        ∀ f ∈ s.callIdx.take i, f.data ≠ e.data

instance (s : ConnTable DbusStatusFuncIdx) (e : DbusStatusFuncIdx) : Decidable (FreshStatus s e) :=
  inferInstanceAs (Decidable (_ ∧ ∀ i ∈ find DbusStatusFuncIdx.connection null s.callIdx, _))

/-- The function of each connection is found under the connection and under its data, and every slot
that is taken is a connection's. -/
structure StatusKept (s : ConnTable DbusStatusFuncIdx) : Prop where
  table : TableKept DbusStatusFuncIdx.connection s
  data : Found DbusStatusFuncIdx.data ConnFunctions.slot ConnFunctions.entry s.callIdx s.functions
  own : ∀ r ∈ s.functions, r.entry.connection = r.connection ∧ r.entry.data ≠ null
  taken : ∀ (j : ℕ) (f : DbusStatusFuncIdx), s.callIdx[j]? = some f → f.connection ≠ null →
    ∃ r ∈ s.functions, r.slot = some j

variable {W} {s t : ConnTable DbusStatusFuncIdx} {c : Addr} {e : DbusStatusFuncIdx}

theorem freeStatusData_eq {t : List DbusStatusFuncIdx} {i : Nat} (hd : e.data ≠ null)
    (hi : find DbusStatusFuncIdx.data e.data t = some i) (he : t[i]? = some e) :
    freeStatusData W t e = t.set i e.clear :=
  congrArg Prod.fst (releaseProxy_eq hd hi he DbusStatusFuncIdx.clear _)

/-- The status proxy calls the function that is set on the connection it is handed. -/
theorem dispatchStatusProxy_eq (h : StatusKept s) {r : ConnFunctions DbusStatusFuncIdx} (hr : r ∈ s.functions)
    (newStatus : UInt32) : dbusDispatchStatusProxy W s.callIdx r.connection newStatus r.entry.data =
      statusCall W r.entry r.connection newStatus r.entry.data := by
  obtain ⟨i, -, he, hi⟩ := h.table.kept.find hr
  obtain ⟨hc, hd⟩ := h.own r hr
  rw [hc] at hi
  rw [dbusDispatchStatusProxy, if_neg hd, hi, Option.bind_some, he, Option.bind_some]

/-- A slot with the connection of a registration is the registration's. -/
theorem StatusKept.slot_of_connection (h : StatusKept s) {j : ℕ} {f : DbusStatusFuncIdx} (hf : s.callIdx[j]? = some f)
    (hne : f.connection ≠ null) : ∃ r ∈ s.functions, r.slot = some j ∧ r.connection = f.connection := by
  obtain ⟨r, hr, hj⟩ := h.taken j f hf hne
  obtain ⟨k, hk, he⟩ := h.table.kept.recorded.at_slot r hr
  rw [hj] at hk
  cases hk
  rw [hf] at he
  cases he
  exact ⟨r, hr, hj, (h.own r hr).1.symm⟩

/-- Registrations on one connection are the same. -/
theorem eq_of_connection (h : StatusKept s) {q r : ConnFunctions DbusStatusFuncIdx} (hq : q ∈ s.functions)
    (hr : r ∈ s.functions) (hc : q.connection = r.connection) : q = r :=
  List.inj_on_of_nodup_map h.table.connections hq hr hc

/-! ## Calls of the glue and releases -/

/-- The slots before `i`, one that is cleared apart, that hold the connection of a registration hold it
for another one. -/
theorem StatusKept.connection_ne (h : StatusKept s) {i : ℕ} (hc : c ≠ null)
    {t : List DbusStatusFuncIdx} (ht : ∀ (j : ℕ) (f : DbusStatusFuncIdx), t[j]? = some f → f.connection = c →
      s.callIdx[j]? = some f ∧ ∀ r ∈ s.functions, r.connection = c → r.slot ≠ some j) :
    ∀ f ∈ t.take i, f.connection ≠ c := by
  intro f hf he
  obtain ⟨j, hj⟩ := List.mem_iff_getElem?.1 (List.mem_of_mem_take hf)
  obtain ⟨hat, hno⟩ := ht j f hj he
  obtain ⟨r, hr, hslot, hrc⟩ := h.slot_of_connection hat (he ▸ hc)
  exact hno r hr (hrc.trans he) hslot

/-- A record written into a free slot for a connection without a registration. -/
theorem statusKept_new (h : StatusKept s) (hnone : s.current c = none) (hc : c ≠ null) (hec : e.connection = c)
    (hd : e.data ≠ null) {i : ℕ} {f : DbusStatusFuncIdx} (hf : s.callIdx[i]? = some f) (hnull : f.connection = null)
    (hb : Behind DbusStatusFuncIdx.data ConnFunctions.slot ConnFunctions.entry s.functions e i)
    (hfirst : ∀ f ∈ s.callIdx.take i, f.data ≠ e.data) :
    StatusKept ⟨s.callIdx.set i e, s.functions ++ [⟨c, e, some i⟩]⟩ := by
  have hlt : i < s.callIdx.length := (List.getElem?_eq_some_iff.1 hf).1
  have hne : ∀ q ∈ s.functions, q.connection ≠ c := fun q hq => by simpa using List.find?_eq_none.1 hnone q hq
  have hother := h.table.kept.recorded.slot_ne_of_null hf hnull
  have hecn : e.connection ≠ null := hec.symm ▸ hc
  have hconn := (h.table.kept.set_iff (r := ⟨c, e, some i⟩) hf hnull rfl hecn).2
    ⟨fun q hq hk => absurd ((h.own q hq).1.symm.trans (hk.trans hec)) (hne q hq),
      hec.symm ▸ h.connection_ne hc fun j f hj he => ⟨hj, fun r hr hrc => absurd hrc (hne r hr)⟩⟩
  refine ⟨⟨hconn, ?_⟩, fun q hq => ?_, fun q hq => ?_, fun j f hj hne' => ?_⟩
  · rw [List.map_append, List.map_singleton, List.nodup_append]
    refine ⟨h.table.connections, List.nodup_singleton _, fun a ha b hb => ?_⟩
    obtain ⟨q, hq, rfl⟩ := List.mem_map.1 ha
    rw [List.mem_singleton.1 hb]
    exact hne q hq
  · rcases List.mem_append.1 hq with hq | hq
    · exact (h.table.kept.recorded.find_set_iff hq (h.data q hq) e (hother q hq)).2 (hb q hq)
    · rw [List.mem_singleton.1 hq]
      exact (find_set_self hlt).2 hfirst
  · rcases List.mem_append.1 hq with hq | hq
    · exact h.own q hq
    · rw [List.mem_singleton.1 hq]
      exact ⟨hec, hd⟩
  · rcases getElem?_set_some hj with ⟨hji, -⟩ | ⟨-, hj⟩
    · exact ⟨⟨c, e, some i⟩, List.mem_append_right _ (List.mem_singleton_self _), congrArg some hji.symm⟩
    · obtain ⟨r, hr, hslot⟩ := h.taken j f hj hne'
      exact ⟨r, List.mem_append_left _ hr, hslot⟩

/-- The registration of a connection dropped and its slot cleared: the data it leaves there is no
other's. -/
theorem statusKept_drop (h : StatusKept s) {q : ConnFunctions DbusStatusFuncIdx} (hcur : s.current c = some q) :
    ∃ j, q.slot = some j ∧ freeStatusData W s.callIdx q.entry = s.callIdx.set j q.entry.clear ∧
      StatusKept ⟨s.callIdx.set j q.entry.clear, s.others c⟩ := by
  obtain ⟨hq, hqc⟩ := current_eq_some hcur
  obtain ⟨j, hj, hqe⟩ := h.table.kept.recorded.at_slot q hq
  have hfree := freeStatusData_eq (W := W) (h.own q hq).2 ((h.data q hq).trans hj) hqe
  refine ⟨j, hj, hfree, ⟨?_, ((others_sublist s c).map _).nodup h.table.connections⟩, fun r hr => ?_,
    fun r hr => h.own r (mem_others.1 hr).1, fun k f hk hne => ?_⟩
  · exact h.table.kept.release (others_sublist s c) hq (fun hm => (mem_others.1 hm).2 hqc) hj rfl
  · refine (find_set_same hqe ?_).trans (h.data r (mem_others.1 hr).1)
    rfl
  · rcases getElem?_set_some hk with ⟨-, rfl⟩ | ⟨hkj, hk⟩
    · exact absurd rfl hne
    · obtain ⟨r, hr, hslot⟩ := h.taken k f hk hne
      refine ⟨r, mem_others.2 ⟨hr, fun hrc => hkj ?_⟩, hslot⟩
      rw [eq_of_connection h hr hq (hrc.trans hqc.symm), hj] at hslot
      exact (Option.some.inj hslot).symm

theorem statusKept_finalize (h : StatusKept s) (ht : s.finalize (freeStatusData W) c = some t) : StatusKept t := by
  obtain ⟨q, hcur, rfl⟩ := Option.map_eq_some_iff.1 ht
  obtain ⟨j, -, hfree, hk⟩ := statusKept_drop (W := W) h hcur
  rwa [hfree]

theorem statusKept_setFunctions (h : StatusKept s) (hc : c ≠ null) (hec : e.connection = c) (hd : e.data ≠ null)
    (hok : FreshStatus s e) :
    StatusKept (s.setFunctions (freeStatusData W) c e (fill DbusStatusFuncIdx.connection null s.callIdx e)
      true) := by
  obtain ⟨i, hi⟩ := Option.ne_none_iff_exists'.1 hok.1
  obtain ⟨hb, hfirst⟩ := hok.2 i hi
  obtain ⟨f, hf, hnull, -⟩ := find_eq_some.1 hi
  have hfill : fill DbusStatusFuncIdx.connection null s.callIdx e = (s.callIdx.set i e, some i) := by rw [fill, hi]
  simp only [ConnTable.setFunctions, hfill, if_true]
  cases hcur : s.current c with
  | none =>
    rw [others_of_none hcur]
    exact statusKept_new h hcur hc hec hd hf hnull hb hfirst
  | some q =>
    obtain ⟨hq, hqc⟩ := current_eq_some hcur
    obtain ⟨j, hj, -, hdrop⟩ := statusKept_drop (W := W) h hcur
    obtain ⟨_, hj', hqe⟩ := h.table.kept.recorded.at_slot q hq
    cases hj.symm.trans hj'
    have hji : i ≠ j := fun hij => h.table.kept.recorded.slot_ne_of_null hf hnull q hq (hij ▸ hj)
    -- the search for the data that is freed passes over the new record
    have hfind : find DbusStatusFuncIdx.data q.entry.data (s.callIdx.set i e) = some j :=
      (find_set_ne ((h.data q hq).trans hj) (Ne.symm hji)).2 fun hk => hb q hq hk.symm j hj
    have hat : (s.callIdx.set i e)[j]? = some q.entry := by rw [List.getElem?_set_ne hji, hqe]
    simp only [freeStatusData_eq (h.own q hq).2 hfind hat]
    rw [List.set_comm _ _ hji]
    refine statusKept_new hdrop ?_ hc hec hd ?_ hnull (Behind.sublist hb (others_sublist s c)) fun g hg => ?_
    · refine List.find?_eq_none.2 fun r hr => ?_
      simpa using (mem_others.1 hr).2
    · rw [List.getElem?_set_ne (Ne.symm hji), hf]
    · -- the cleared slot keeps the data it had
      obtain ⟨k, hk⟩ := List.mem_iff_getElem?.1 hg
      have hki : k < i := by
        by_contra hki
        rw [List.getElem?_eq_none (by rw [List.length_take]; omega)] at hk
        cases hk
      rw [List.getElem?_take_of_lt hki] at hk
      rcases getElem?_set_some hk with ⟨rfl, rfl⟩ | ⟨-, hk⟩
      · exact hfirst q.entry (List.mem_of_getElem? (i := k) (by rw [List.getElem?_take_of_lt hki, hqe]))
      · exact hfirst g (List.mem_of_getElem? (i := k) (by rw [List.getElem?_take_of_lt hki, hk]))

end VelaWasm.Dbus
