/-
User data of watches and timeouts: `glue_dbus_watch_set_data` and `glue_dbus_timeout_set_data` with the
release proxies `dbus_watch_set_data_free_data` and `dbus_timeout_set_data_free_data`, over every sequence
of calls and of finalisations by libdbus. A slot keeps a new and an old generation, and the proxies search
the old one: a call moves the data that libdbus is about to free there, a finalisation does not.
-/
import VelaWasm.Dbus.CallIdx
import VelaWasm.Lib.Run

namespace VelaWasm.Dbus

open VelaWasm.Run VelaWasm.SlotTable

/-! ## The glue -/

/-- `dbus_watch_free_data_idx` and `dbus_timeout_free_data_idx`; `object` is the watch or the timeout. -/
structure DbusFreeDataIdx where
  idxNew : UInt32
  idxOld : UInt32
  dataNew : Addr
  dataOld : Addr
  object : Addr
  dbusEnv : Addr
  deriving DecidableEq, Repr

/-- `wasm_runtime_call_indirect` makes the call whatever the element. -/
def wasmRuntimeCallIndirect (execEnv : Addr) (elementIndex : UInt32) (argv : List UInt32) : Option WasmCall :=
  some ⟨execEnv, elementIndex, argv⟩

/-- Where the two copies differ: how the proxy calls the free function, and when it gives the slot up.
They call the same functions up to element 0, and give up no slot with data to be freed. -/
structure FreeDataKind where
  call : Addr → UInt32 → List UInt32 → Option WasmCall
  spent : DbusFreeDataIdx → Bool
  call_filter : ∀ env fn argv, (call env fn argv).toList.filter (fun c => c.elementIndex ≠ 0) =
    (wasmRuntimeCallIndirectInternal env fn argv).toList
  spent_eq : ∀ e, spent e = true → e.idxNew = 0 ∨ e.dataNew = null

/-- `dbus_watch_set_data_free_data` calls element 0 too, and goes by `idx_new`. -/
def FreeDataKind.watch : FreeDataKind where
  call := wasmRuntimeCallIndirect
  spent e := decide (e.idxNew = 0)
  call_filter env fn argv := by
    by_cases h : fn = 0 <;> simp [wasmRuntimeCallIndirect, wasmRuntimeCallIndirectInternal, h]
  spent_eq e h := .inl (of_decide_eq_true h)

/-- `dbus_timeout_set_data_free_data` goes by `data_new`. -/
def FreeDataKind.timeout : FreeDataKind where
  call := wasmRuntimeCallIndirectInternal
  spent e := decide (e.dataNew = null)
  call_filter env fn argv := by
    by_cases h : fn = 0 <;> simp [wasmRuntimeCallIndirectInternal, h]
  spent_eq e h := .inr (of_decide_eq_true h)

variable (W : Wamr) (k : FreeDataKind)

/-- The slot given up. -/
def DbusFreeDataIdx.drop (e : DbusFreeDataIdx) : DbusFreeDataIdx := { e with object := null }

/-- What the two release proxies share. -/
def setDataFreeData (t : List DbusFreeDataIdx) (data : Addr) : List DbusFreeDataIdx × Option WasmCall :=
  if data = null then (t, none)
  else
    match (find DbusFreeDataIdx.dataOld data t).bind fun i => t[i]?.map fun e => (i, e) with
    | none => (t, none)
    | some (i, e) =>
      (if k.spent e then t.set i e.drop else t,
        k.call e.dbusEnv e.idxOld [W.addrNativeToApp (W.getModuleInst e.dbusEnv) data])

/-- `dbus_watch_set_data_free_data` -/
def dbusWatchSetDataFreeData : List DbusFreeDataIdx → Addr → List DbusFreeDataIdx × Option WasmCall :=
  setDataFreeData W .watch

/-- `dbus_timeout_set_data_free_data` -/
def dbusTimeoutSetDataFreeData : List DbusFreeDataIdx → Addr → List DbusFreeDataIdx × Option WasmCall :=
  setDataFreeData W .timeout

/-- The new generation becomes the old one. -/
def DbusFreeDataIdx.shift (e : DbusFreeDataIdx) (data : Addr) (idx : UInt32) : DbusFreeDataIdx :=
  { e with idxNew := idx, idxOld := e.idxNew, dataNew := data, dataOld := e.dataNew }

/-- A free slot is taken; it keeps its old generation. -/
def DbusFreeDataIdx.take (e : DbusFreeDataIdx) (env object data : Addr) (idx : UInt32) : DbusFreeDataIdx :=
  { e with idxNew := idx, dataNew := data, object, dbusEnv := env }

/-- The data that is stored: null for the app's null address. -/
def storedData (env parm2 : Addr) : Addr :=
  if parm2 = W.addrNativeToApp (W.getModuleInst env) null then null else parm2

/-- The slot search of `glue_dbus_watch_set_data` and `glue_dbus_timeout_set_data`, which stops at the first
slot that is the object's or free. -/
def recordData (t : List DbusFreeDataIdx) (env object data : Addr) (idx : UInt32) : List DbusFreeDataIdx :=
  match find (fun e => decide (e.object = object ∨ e.object = null)) true t with
  | none => t
  | some i =>
    match t[i]? with
    | none => t
    | some e => t.set i (if e.object = object then e.shift data idx else e.take env object data idx)

/-! ## Runs -/

/-- User data that libdbus holds for an object, with the free function it was given with. -/
structure UserData where
  object : Addr
  data : Addr
  freeFunction : UInt32
  env : Addr
  deriving DecidableEq, Repr

/-- The table, the data that libdbus holds, the calls of free functions so far, and those that were due
when data was replaced or its object finalised. -/
structure UserDataState where
  idxs : List DbusFreeDataIdx
  objects : List UserData
  calls : List WasmCall
  due : List WasmCall

def UserDataState.start : UserDataState :=
  ⟨List.replicate dbusPendingCallIdxMax ⟨0, 0, null, null, null, null⟩, [], [], []⟩

/-- The data that an object has. -/
def UserDataState.current (s : UserDataState) (object : Addr) : Option UserData :=
  s.objects.find? fun r => decide (r.object = object)

/-- The data that the other objects have. -/
def UserDataState.others (s : UserDataState) (object : Addr) : List UserData :=
  s.objects.filter fun r => decide (r.object ≠ object)

/-- The call that is due when data is freed. -/
def UserData.due (r : UserData) : Option WasmCall :=
  if r.data = null then none else callOnApp W r.env r.freeFunction [r.data]

variable (freeData : List DbusFreeDataIdx → Addr → List DbusFreeDataIdx × Option WasmCall)

/-- libdbus calls the free function `freeData` of what an object has, and holds what is left. -/
def UserDataState.release (s : UserDataState) (r : UserData) (objects : List UserData) : UserDataState where
  idxs := (freeData s.idxs r.data).1
  objects := objects
  calls := s.calls ++ (freeData s.idxs r.data).2.toList
  due := s.due ++ (r.due W).toList

inductive UserDataAction where
  /-- the application sets the data of an object -/
  | setData (env object parm2 : Addr) (parm3 : UInt32)
  /-- libdbus finalises an object, which sets its data to null -/
  | finalize (object : Addr)

/-- The glue and then libdbus, which frees the data it holds before it stores the new one. -/
def UserDataState.setData (s : UserDataState) (env object parm2 : Addr) (parm3 : UInt32) : UserDataState :=
  let data := storedData W env parm2
  let t := recordData s.idxs env object data parm3
  let objects := s.others object ++ [⟨object, data, parm3, env⟩]
  match s.current object with
  | none => { s with idxs := t, objects }
  | some r => { s with idxs := t }.release W freeData r objects

def userDataStep (s : UserDataState) : UserDataAction → Option UserDataState
  | .setData env o parm2 parm3 => if o = null then none else some (s.setData W freeData env o parm2 parm3)
  | .finalize o => (s.current o).map fun r => s.release W freeData r (s.others o)

/-- `glue_dbus_watch_set_data` and finalisations of watches. -/
abbrev watchDataStep : UserDataState → UserDataAction → Option UserDataState :=
  userDataStep W (dbusWatchSetDataFreeData W)

/-- `glue_dbus_timeout_set_data` and finalisations of timeouts. -/
abbrev timeoutDataStep : UserDataState → UserDataAction → Option UserDataState :=
  userDataStep W (dbusTimeoutSetDataFreeData W)

/-! ## The property -/

/-- The slots of an object are one slot. -/
def AtMostOneSlot (t : List DbusFreeDataIdx) (object : Addr) : Prop :=
  ∀ (i j : ℕ) (e f : DbusFreeDataIdx), t[i]? = some e → t[j]? = some f → e.object = object → f.object = object → i = j

/-- The free functions called are the ones that were due, each when it was, and no object has two
slots. A call of element 0 is a call of no free function. -/
structure FreedOnce (s : UserDataState) : Prop where
  calls : s.calls.filter (fun c => c.elementIndex ≠ 0) = s.due
  slots : ∀ r ∈ s.objects, AtMostOneSlot s.idxs r.object

/-- The record `e` keeps the free function of `r` as its old one. -/
def DbusFreeDataIdx.Keeps (e : DbusFreeDataIdx) (r : UserData) : Prop :=
  e.idxOld = r.freeFunction ∧ (r.freeFunction ≠ 0 → e.dbusEnv = r.env)

instance (e : DbusFreeDataIdx) (r : UserData) : Decidable (e.Keeps r) := inferInstanceAs (Decidable (_ ∧ _))

/-- The first slot that keeps the data of `r` as its old data keeps its free function too. -/
def KeepsFirst (t : List DbusFreeDataIdx) (r : UserData) : Prop :=
  ∀ i ∈ find DbusFreeDataIdx.dataOld r.data t, ∀ e ∈ t[i]?, e.Keeps r

instance (t : List DbusFreeDataIdx) (r : UserData) : Decidable (KeepsFirst t r) :=
  have (i : ℕ) : Decidable (∀ e ∈ t[i]?, e.Keeps r) := Option.decidableForallMem _
  Option.decidableForallMem _

/-- The slots searched before the one into which the object's data is moved. -/
def slotsBefore (t : List DbusFreeDataIdx) (object : Addr) : List DbusFreeDataIdx :=
  match find DbusFreeDataIdx.object object t with
  | some i => t.take i
  | none => t

/-- Data with a free function gets a slot of its env. -/
def HasSlot (t : List DbusFreeDataIdx) (env object : Addr) : Prop :=
  match find DbusFreeDataIdx.object object t with
  | some i => ∀ e ∈ t[i]?, e.dbusEnv = env
  | none => find DbusFreeDataIdx.object null t ≠ none

instance (t : List DbusFreeDataIdx) (env object : Addr) : Decidable (HasSlot t env object) := by
  unfold HasSlot
  split
  · exact Option.decidableForallMem _
  · infer_instance

/-- A call goes to the object's own slot if it has one, which is of the same env, or else finds a free
one; what it replaces is not found in an earlier slot under another function. What an object has when it
is finalised is null or already kept as old data, or has no free function. -/
def FreesData (s : UserDataState) : UserDataAction → Prop
  | .setData env o parm2 parm3 =>
    (∀ i ∈ find DbusFreeDataIdx.object o s.idxs, ∀ e ∈ s.idxs.take i, e.object ≠ null) ∧
      (storedData W env parm2 ≠ null → parm3 ≠ 0 → HasSlot s.idxs env o) ∧
      ∀ r ∈ s.current o, r.data ≠ null → KeepsFirst (slotsBefore s.idxs o) r
  | .finalize o =>
    ∀ r ∈ s.current o, r.data ≠ null →
      KeepsFirst s.idxs r ∧ (r.freeFunction ≠ 0 → find DbusFreeDataIdx.dataOld r.data s.idxs ≠ none)

instance (s : UserDataState) : DecidablePred (FreesData W s)
  | .setData env o parm2 parm3 => by
    have hfirst : Decidable (∀ i ∈ find DbusFreeDataIdx.object o s.idxs, ∀ e ∈ s.idxs.take i, e.object ≠ null) :=
      Option.decidableForallMem _
    have hold : Decidable (∀ r ∈ s.current o, r.data ≠ null → KeepsFirst (slotsBefore s.idxs o) r) :=
      Option.decidableForallMem _
    unfold FreesData
    infer_instance
  | .finalize o => Option.decidableForallMem _

/-! ## The slot of a call -/

variable {t : List DbusFreeDataIdx} {env o d : Addr} {fn : UInt32} {e : DbusFreeDataIdx} {i : ℕ}

theorem recordData_own (hi : find DbusFreeDataIdx.object o t = some i) (he : t[i]? = some e)
    (hfirst : ∀ f ∈ t.take i, f.object ≠ null) : recordData t env o d fn = t.set i (e.shift d fn) := by
  obtain ⟨f, hf, hfo, hlt⟩ := find_eq_some.1 hi
  rw [he] at hf
  cases hf
  have hfind : find (fun e : DbusFreeDataIdx => decide (e.object = o ∨ e.object = null)) true t = some i :=
    find_eq_some.2 ⟨e, he, by simp [hfo], fun f hf => by simp [hlt f hf, hfirst f hf]⟩
  simp only [recordData, hfind, he, hfo, if_true]

theorem recordData_free (ho : find DbusFreeDataIdx.object o t = none) (hi : find DbusFreeDataIdx.object null t = some i)
    (he : t[i]? = some e) : recordData t env o d fn = t.set i (e.take env o d fn) := by
  obtain ⟨f, hf, hnull, hlt⟩ := find_eq_some.1 hi
  rw [he] at hf
  cases hf
  have hno := find_eq_none.1 ho
  have hfind : find (fun e : DbusFreeDataIdx => decide (e.object = o ∨ e.object = null)) true t = some i := by
    refine find_eq_some.2 ⟨e, he, by simp [hnull], fun f hf => ?_⟩
    simp [hlt f hf, hno f (List.mem_of_mem_take hf)]
  simp only [recordData, hfind, he, if_neg (hno e (List.mem_of_getElem? he))]

theorem recordData_full (ho : find DbusFreeDataIdx.object o t = none) (hn : find DbusFreeDataIdx.object null t = none) :
    recordData t env o d fn = t := by
  have hfind : find (fun e : DbusFreeDataIdx => decide (e.object = o ∨ e.object = null)) true t = none := by
    refine find_eq_none.2 fun e he => ?_
    simp [find_eq_none.1 ho e he, find_eq_none.1 hn e he]
  simp only [recordData, hfind]

/-! ## The invariant -/

/-- No object has two slots, the slot of an object has its data as the new one, and data with a free
function has a slot. -/
structure SlotsKept (t : List DbusFreeDataIdx) (objects : List UserData) : Prop where
  unique : ∀ (i j : ℕ) (e f : DbusFreeDataIdx), t[i]? = some e → t[j]? = some f → e.object = f.object →
    e.object ≠ null → i = j
  own : ∀ r ∈ objects, ∀ e ∈ t, e.object = r.object → e.idxNew = r.freeFunction ∧ e.dataNew = r.data ∧
    (r.data ≠ null → r.freeFunction ≠ 0 → e.dbusEnv = r.env)
  present : ∀ r ∈ objects, r.data ≠ null → r.freeFunction ≠ 0 → ∃ e ∈ t, e.object = r.object
  object_ne : ∀ r ∈ objects, r.object ≠ null

structure UserDataKept (s : UserDataState) : Prop where
  slots : SlotsKept s.idxs s.objects
  calls : s.calls.filter (fun c => c.elementIndex ≠ 0) = s.due

variable {W k} {s u : UserDataState} {objects : List UserData} {r : UserData}

theorem freedOnce_of_kept (h : UserDataKept s) : FreedOnce s :=
  ⟨h.calls, fun r hr i j e f he hf hre hrf =>
    h.slots.unique i j e f he hf (hre.trans hrf.symm) (hre ▸ h.slots.object_ne r hr)⟩

theorem userDataKept_start : UserDataKept .start := by
  refine ⟨⟨fun i j e f he _ _ hne => ?_, fun r hr => (by cases hr), fun r hr => (by cases hr),
    fun r hr => (by cases hr)⟩, rfl⟩
  rw [List.eq_of_mem_replicate (List.mem_of_getElem? he)] at hne
  exact absurd rfl hne

theorem SlotsKept.mono {objects' : List UserData} (h : SlotsKept t objects) (hsub : objects' ⊆ objects) :
    SlotsKept t objects' :=
  ⟨h.unique, fun r hr => h.own r (hsub hr), fun r hr => h.present r (hsub hr), fun r hr => h.object_ne r (hsub hr)⟩

/-- A record of new data in a slot that is free or the object's, which has no other. -/
theorem SlotsKept.write {e' : DbusFreeDataIdx} (h : SlotsKept t (s.others o)) (he : t[i]? = some e)
    (hfree : e.object = o ∨ e.object = null)
    (honly : ∀ (j : ℕ) (f : DbusFreeDataIdx), t[j]? = some f → f.object = o → j = i)
    (ho : o ≠ null) (ho' : e'.object = o) (hidx : e'.idxNew = fn) (hdata : e'.dataNew = d)
    (henv : d ≠ null → fn ≠ 0 → e'.dbusEnv = env) : SlotsKept (t.set i e') (s.others o ++ [⟨o, d, fn, env⟩]) := by
  have hlt : i < t.length := (List.getElem?_eq_some_iff.1 he).1
  have hne : ∀ r ∈ s.others o, r.object ≠ o := fun r hr => by simpa using (List.mem_filter.1 hr).2
  have hset : ∀ (j : ℕ) (f : DbusFreeDataIdx), (t.set i e')[j]? = some f → f.object ≠ o → t[j]? = some f := by
    intro j f hf hfo
    rcases getElem?_set_some hf with ⟨rfl, rfl⟩ | ⟨-, hf⟩
    · exact absurd ho' hfo
    · exact hf
  have hown : ∀ (j : ℕ) (f : DbusFreeDataIdx), (t.set i e')[j]? = some f → f.object = o → j = i ∧ f = e' := by
    intro j f hf hfo
    rcases getElem?_set_some hf with hnew | ⟨hji, hf⟩
    · exact hnew
    · exact absurd (honly j f hf hfo) hji
  refine ⟨fun j l f g hf hg hfg hnull => ?_, fun r hr f hf hfr => ?_, fun r hr hd hfn => ?_, fun r hr => ?_⟩
  · by_cases hfo : f.object = o
    · rw [(hown j f hf hfo).1, (hown l g hg (hfg ▸ hfo)).1]
    · exact h.unique j l f g (hset j f hf hfo) (hset l g hg (hfg ▸ hfo)) hfg hnull
  · obtain ⟨j, hj⟩ := List.mem_iff_getElem?.1 hf
    rcases List.mem_append.1 hr with hr | hr
    · exact h.own r hr f (List.mem_of_getElem? (hset j f hj (hfr ▸ hne r hr))) hfr
    · rw [List.mem_singleton.1 hr] at hfr ⊢
      obtain ⟨-, rfl⟩ := hown j f hj hfr
      exact ⟨hidx, hdata, henv⟩
  · rcases List.mem_append.1 hr with hr | hr
    · obtain ⟨f, hf, hfr⟩ := h.present r hr hd hfn
      obtain ⟨j, hj⟩ := List.mem_iff_getElem?.1 hf
      have hij : i ≠ j := by
        rintro rfl
        rw [he] at hj
        cases hj
        rcases hfree with hfo | hnull
        · exact hne r hr (hfr.symm.trans hfo)
        · exact h.object_ne r hr (hfr.symm.trans hnull)
      exact ⟨f, List.mem_of_getElem? ((List.getElem?_set_ne hij).trans hj), hfr⟩
    · rw [List.mem_singleton.1 hr]
      exact ⟨e', List.mem_of_getElem? (List.getElem?_set_self hlt), ho'⟩
  · rcases List.mem_append.1 hr with hr | hr
    · exact h.object_ne r hr
    · rw [List.mem_singleton.1 hr]
      exact ho

/-- A slot without data to be freed is given up. -/
theorem SlotsKept.drop (h : SlotsKept t objects) (he : t[i]? = some e) (hspent : e.idxNew = 0 ∨ e.dataNew = null) :
    SlotsKept (t.set i e.drop) objects := by
  have hset : ∀ (j : ℕ) (f : DbusFreeDataIdx), (t.set i e.drop)[j]? = some f → f.object ≠ null → t[j]? = some f := by
    intro j f hf hnull
    rcases getElem?_set_some hf with ⟨rfl, rfl⟩ | ⟨-, hf⟩
    · exact absurd rfl hnull
    · exact hf
  refine ⟨fun j l f g hf hg hfg hnull => ?_, fun r hr f hf hfr => ?_, fun r hr hd hfn => ?_, h.object_ne⟩
  · exact h.unique j l f g (hset j f hf hnull) (hset l g hg (hfg ▸ hnull)) hfg hnull
  · obtain ⟨j, hj⟩ := List.mem_iff_getElem?.1 hf
    exact h.own r hr f (List.mem_of_getElem? (hset j f hj (hfr ▸ h.object_ne r hr))) hfr
  · obtain ⟨f, hf, hfr⟩ := h.present r hr hd hfn
    obtain ⟨j, hj⟩ := List.mem_iff_getElem?.1 hf
    obtain ⟨hidx, hdata, -⟩ := h.own r hr f hf hfr
    have hij : i ≠ j := by
      rintro rfl
      rw [he] at hj
      cases hj
      rcases hspent with h0 | hnull
      · exact hfn (hidx ▸ h0)
      · exact hd (hdata ▸ hnull)
    exact ⟨f, List.mem_of_getElem? ((List.getElem?_set_ne hij).trans hj), hfr⟩

theorem SlotsKept.setDataFreeData (h : SlotsKept t objects) (data : Addr) :
    SlotsKept (setDataFreeData W k t data).1 objects := by
  unfold Dbus.setDataFreeData
  split_ifs with hnull
  · exact h
  · split
    · exact h
    · rename_i i e hfind
      obtain ⟨j, -, hj⟩ := Option.bind_eq_some_iff.1 hfind
      obtain ⟨f, hf, hji⟩ := Option.map_eq_some_iff.1 hj
      cases hji
      split_ifs with hspent
      · exact h.drop hf (k.spent_eq e hspent)
      · exact h

/-- The glue's record of new data. -/
theorem SlotsKept.recordData (h : SlotsKept s.idxs s.objects) (ho : o ≠ null)
    (hfirst : ∀ i ∈ find DbusFreeDataIdx.object o s.idxs, ∀ e ∈ s.idxs.take i, e.object ≠ null)
    (hslot : d ≠ null → fn ≠ 0 → HasSlot s.idxs env o) :
    SlotsKept (recordData s.idxs env o d fn) (s.others o ++ [⟨o, d, fn, env⟩]) := by
  have hothers : SlotsKept s.idxs (s.others o) := h.mono (List.filter_subset_self _)
  cases hown : find DbusFreeDataIdx.object o s.idxs with
  | some i =>
    obtain ⟨e, he, heo, -⟩ := find_eq_some.1 hown
    rw [recordData_own hown he (hfirst i hown)]
    refine hothers.write he (.inl heo) (fun j f hf hfo => ?_) ho heo rfl rfl fun hd hfn => ?_
    · exact h.unique j i f e hf he (hfo.trans heo.symm) (hfo ▸ ho)
    · have hs := hslot hd hfn
      rw [HasSlot, hown] at hs
      exact hs e he
  | none =>
    have hno := find_eq_none.1 hown
    cases hfree : find DbusFreeDataIdx.object null s.idxs with
    | some i =>
      obtain ⟨e, he, hnull, -⟩ := find_eq_some.1 hfree
      rw [recordData_free hown hfree he]
      refine hothers.write he (.inr hnull) (fun j f hf hfo => ?_) ho rfl rfl rfl fun _ _ => rfl
      exact absurd hfo (hno f (List.mem_of_getElem? hf))
    | none =>
      rw [recordData_full hown hfree]
      have hspent : d ≠ null → fn ≠ 0 → False := by
        intro hd hfn
        have hs := hslot hd hfn
        rw [HasSlot, hown] at hs
        exact hs hfree
      refine ⟨h.unique, fun r hr e he heo => ?_, fun r hr hd hfn => ?_, fun r hr => ?_⟩
      all_goals rcases List.mem_append.1 hr with hr | hr
      · exact hothers.own r hr e he heo
      · rw [List.mem_singleton.1 hr] at heo
        exact absurd heo (hno e he)
      · exact hothers.present r hr hd hfn
      · rw [List.mem_singleton.1 hr] at hd hfn
        exact (hspent hd hfn).elim
      · exact hothers.object_ne r hr
      · rw [List.mem_singleton.1 hr]
        exact ho

/-! ## Freeing what is replaced -/

theorem current_mem (h : s.current o = some r) : r ∈ s.objects ∧ r.object = o :=
  of_find?_key h

/-- The call of a release proxy whose search ends in a slot that keeps the free function. -/
theorem setDataFreeData_call (hd : r.data ≠ null) (hkeep : KeepsFirst t r)
    (hfound : r.freeFunction ≠ 0 → find DbusFreeDataIdx.dataOld r.data t ≠ none) :
    (setDataFreeData W k t r.data).2.toList.filter (fun c => c.elementIndex ≠ 0) = (r.due W).toList := by
  rw [setDataFreeData, if_neg hd, UserData.due, if_neg hd]
  cases hi : find DbusFreeDataIdx.dataOld r.data t with
  | none =>
    have hfn : r.freeFunction = 0 := by
      by_contra hfn
      exact hfound hfn hi
    simp [callOnApp, wasmRuntimeCallIndirectInternal, hfn]
  | some i =>
    obtain ⟨e, he, -, -⟩ := find_eq_some.1 hi
    obtain ⟨hidx, henv⟩ := hkeep i hi e he
    simp only [Option.bind_some, he, Option.map_some, k.call_filter, hidx]
    by_cases hfn : r.freeFunction = 0
    · simp [callOnApp, wasmRuntimeCallIndirectInternal, hfn]
    · rw [henv hfn]
      rfl

/-- In the slot of its object the data that is replaced becomes the old generation; a search for it ends
there or in front of it. -/
theorem keepsFirst_recordData_own {i : ℕ} {d' : Addr} (h : SlotsKept s.idxs s.objects) (hr : r ∈ s.objects)
    (hro : r.object = o) (hd : r.data ≠ null) (hown : find DbusFreeDataIdx.object o s.idxs = some i)
    (hfirst : ∀ e ∈ s.idxs.take i, e.object ≠ null) (hkeep : KeepsFirst (s.idxs.take i) r) :
    KeepsFirst (recordData s.idxs env o d' fn) r ∧
      find DbusFreeDataIdx.dataOld r.data (recordData s.idxs env o d' fn) ≠ none := by
  obtain ⟨e, he, heo, -⟩ := find_eq_some.1 hown
  have hlt : i < s.idxs.length := (List.getElem?_eq_some_iff.1 he).1
  obtain ⟨hidx, hdata, henv⟩ := h.own r hr e (List.mem_of_getElem? he) (heo.trans hro.symm)
  rw [recordData_own hown he hfirst]
  have hself : (s.idxs.set i (e.shift d' fn))[i]? = some (e.shift d' fn) := List.getElem?_set_self hlt
  refine ⟨fun j hj f hf => ?_, fun hnone => ?_⟩
  · obtain ⟨g, hg, hgd, hbefore⟩ := find_eq_some.1 hj
    rw [hf] at hg
    cases hg
    have hji : ¬ i < j := by
      intro hij
      refine hbefore (e.shift d' fn) (List.mem_of_getElem? (i := i) ?_) hdata
      rw [List.getElem?_take_of_lt hij, hself]
    rcases Nat.lt_or_eq_of_le (Nat.le_of_not_lt hji) with hlt' | rfl
    · -- a slot in front of the object's own
      rw [List.getElem?_set_ne (by omega)] at hf
      rw [List.take_set_of_le (by omega)] at hbefore
      have hat : (s.idxs.take i)[j]? = some f := by rw [List.getElem?_take_of_lt hlt', hf]
      refine hkeep j (find_eq_some.2 ⟨f, hat, hgd, fun g hg => hbefore g ?_⟩) f hat
      rwa [List.take_take, Nat.min_eq_left (by omega)] at hg
    · rw [hself] at hf
      cases hf
      exact ⟨hidx, henv hd⟩
  · exact find_eq_none.1 hnone _ (List.mem_of_getElem? hself) hdata

/-- A slot that is taken keeps its old generation, so for an object without a slot the search ends where
it did. -/
theorem keepsFirst_recordData_other {d' : Addr} (hown : find DbusFreeDataIdx.object o s.idxs = none)
    (hfn : r.freeFunction = 0) (hkeep : KeepsFirst s.idxs r) : KeepsFirst (recordData s.idxs env o d' fn) r := by
  cases hfree : find DbusFreeDataIdx.object null s.idxs with
  | some i =>
    obtain ⟨e, he, -, -⟩ := find_eq_some.1 hfree
    rw [recordData_free hown hfree he]
    have hsame : find DbusFreeDataIdx.dataOld r.data (s.idxs.set i (e.take env o d' fn)) =
        find DbusFreeDataIdx.dataOld r.data s.idxs := by
      refine find_set_same he ?_
      rfl
    intro j hj f hf
    rw [hsame] at hj
    rcases getElem?_set_some hf with ⟨rfl, rfl⟩ | ⟨-, hf⟩
    · exact ⟨(hkeep j hj e he).1, fun hne => absurd hfn hne⟩
    · exact hkeep j hj f hf
  | none =>
    rw [recordData_full hown hfree]
    exact hkeep

/-- After the glue's record, the data that is replaced is found in the old generation with its free
function. -/
theorem keepsFirst_recordData (h : SlotsKept s.idxs s.objects) (hcur : s.current o = some r) (hd : r.data ≠ null)
    (hfirst : ∀ i ∈ find DbusFreeDataIdx.object o s.idxs, ∀ e ∈ s.idxs.take i, e.object ≠ null)
    (hkeep : KeepsFirst (slotsBefore s.idxs o) r) {d' : Addr} :
    KeepsFirst (recordData s.idxs env o d' fn) r ∧
      (r.freeFunction ≠ 0 → find DbusFreeDataIdx.dataOld r.data (recordData s.idxs env o d' fn) ≠ none) := by
  obtain ⟨hr, hro⟩ := current_mem hcur
  cases hown : find DbusFreeDataIdx.object o s.idxs with
  | some i =>
    rw [slotsBefore, hown] at hkeep
    refine And.imp_right (fun hne _ => hne) ?_
    exact keepsFirst_recordData_own h hr hro hd hown (hfirst i hown) hkeep
  | none =>
    rw [slotsBefore, hown] at hkeep
    have hfn : r.freeFunction = 0 := by
      by_contra hfn
      obtain ⟨e, he, heo⟩ := h.present r hr hd hfn
      exact find_eq_none.1 hown e he (heo.trans hro)
    exact ⟨keepsFirst_recordData_other hown hfn hkeep, fun hne => absurd hfn hne⟩

/-- libdbus frees what an object has, and the due call is made. -/
theorem userDataKept_release (h : SlotsKept s.idxs objects)
    (hcalls : s.calls.filter (fun c => c.elementIndex ≠ 0) = s.due)
    (hfree : r.data ≠ null → KeepsFirst s.idxs r ∧
      (r.freeFunction ≠ 0 → find DbusFreeDataIdx.dataOld r.data s.idxs ≠ none)) :
    UserDataKept (s.release W (setDataFreeData W k) r objects) := by
  refine ⟨h.setDataFreeData r.data, ?_⟩
  simp only [UserDataState.release, List.filter_append, hcalls]
  by_cases hd : r.data = null
  · simp [setDataFreeData, UserData.due, hd]
  · obtain ⟨hkeep, hfound⟩ := hfree hd
    rw [setDataFreeData_call hd hkeep hfound]

theorem userDataKept_step {a : UserDataAction} (h : UserDataKept s) (hok : FreesData W s a)
    (ht : userDataStep W (setDataFreeData W k) s a = some u) : UserDataKept u := by
  cases a with
  | setData env o parm2 parm3 =>
    simp only [userDataStep] at ht
    split_ifs at ht with ho
    cases ht
    obtain ⟨hfirst, hslot, hold⟩ := hok
    have hslots := h.slots.recordData ho hfirst hslot
    unfold UserDataState.setData
    cases hcur : s.current o with
    | none => exact ⟨hslots, h.calls⟩
    | some r =>
      let t := recordData s.idxs env o (storedData W env parm2) parm3
      have hfree : r.data ≠ null → KeepsFirst t r ∧
          (r.freeFunction ≠ 0 → find DbusFreeDataIdx.dataOld r.data t ≠ none) :=
        fun hd => keepsFirst_recordData h.slots hcur hd hfirst (hold r hcur hd)
      exact userDataKept_release (s := { s with idxs := t }) hslots h.calls hfree
  | finalize o =>
    obtain ⟨r, hcur, rfl⟩ := Option.map_eq_some_iff.1 ht
    exact userDataKept_release (h.slots.mono (List.filter_subset_self _)) h.calls (hok r hcur)

/-! ## Freed exactly once -/

/-- In a run whose calls and finalisations all find the data that is freed in the old generation, the data
of watches, and that of timeouts, is freed exactly once. -/
theorem freedOnce_of_freesData {W : Wamr} {as : List UserDataAction} {s : UserDataState} :
    (Meets (watchDataStep W) (FreesData W) .start as → exec (watchDataStep W) .start as = some s → FreedOnce s) ∧
      (Meets (timeoutDataStep W) (FreesData W) .start as → exec (timeoutDataStep W) .start as = some s →
        FreedOnce s) :=
  ⟨fun hm h => freedOnce_of_kept <|
      exec_invariant (fun _ _ _ hk hok ht => userDataKept_step hk hok ht) userDataKept_start hm h,
    fun hm h => freedOnce_of_kept <|
      exec_invariant (fun _ _ _ hk hok ht => userDataKept_step hk hok ht) userDataKept_start hm h⟩

def userDataWamr : Wamr := .linear id fun _ => 0x1000

/-- The data of two objects is replaced and then taken back before the objects are finalised. -/
def takenBack : List UserDataAction :=
  [.setData 1 0x2000 0x3000 5, .setData 1 0x2400 0x3400 6, .setData 1 0x2000 0x3800 7, .setData 1 0x2400 null 0,
    .setData 1 0x2000 null 0, .finalize 0x2400, .finalize 0x2000]

theorem freedOnce_takenBack :
    (∃ s, exec (watchDataStep userDataWamr) .start takenBack = some s ∧ FreedOnce s ∧ s.due.length = 3) ∧
      ∃ s, exec (timeoutDataStep userDataWamr) .start takenBack = some s ∧ FreedOnce s := by
  have hw : Meets (watchDataStep userDataWamr) (FreesData userDataWamr) .start takenBack := by decide
  have ht : Meets (timeoutDataStep userDataWamr) (FreesData userDataWamr) .start takenBack := by decide
  exact ⟨⟨_, rfl, freedOnce_of_freesData.1 hw rfl, rfl⟩, ⟨_, rfl, freedOnce_of_freesData.2 ht rfl⟩⟩

/-- An object is finalised with its first data. -/
def finalizedWithData : List UserDataAction := [.setData 1 0x2000 0x3000 5, .finalize 0x2000]

/-- The release proxy looks for the data in the old generation, where it never was. -/
theorem finalized_data_kept :
    ¬ ∀ (W : Wamr) (as : List UserDataAction) (s : UserDataState), exec (watchDataStep W) .start as = some s →
      s.objects.length ≤ dbusPendingCallIdxMax → FreedOnce s := by
  intro h
  have hf := h userDataWamr finalizedWithData _ rfl (by decide)
  exact absurd hf.calls (by decide)

end VelaWasm.Dbus
