/-
The tables of `glue_dbus_watch_set_data` and `glue_dbus_timeout_set_data` side by side: one sequence of calls
and of release proxy invocations, made on both. The calls record alike. The proxies differ in whether
they call element 0, and in the field that tells them to give the slot up.
-/
import VelaWasm.Dbus.UserData

namespace VelaWasm.Dbus

open VelaWasm.Run VelaWasm.SlotTable

/-! ## The tables side by side -/

/-- A table and the wasm calls made so far. -/
structure DataTable where
  idxs : List DbusFreeDataIdx
  calls : List WasmCall

/-- What happens to a table: an application sets the data of an object, or libdbus invokes the free proxy. -/
inductive TableAction where
  | setData (env object parm2 : Addr) (parm3 : UInt32)
  | freeData (data : Addr)
  deriving DecidableEq, Repr

variable (W : Wamr) (k : FreeDataKind)

/-- `glue_dbus_watch_set_data` and `dbus_watch_set_data_free_data`, or those of the timeouts. -/
def DataTable.run (d : DataTable) : TableAction → DataTable
  | .setData env object parm2 parm3 =>
    { d with idxs := recordData d.idxs env object (storedData W env parm2) parm3 }
  | .freeData data =>
    let (idxs, call) := setDataFreeData W k d.idxs data
    ⟨idxs, d.calls ++ call.toList⟩

structure BothTables where
  watch : DataTable
  timeout : DataTable

def BothTables.start : BothTables := ⟨⟨UserDataState.start.idxs, []⟩, ⟨UserDataState.start.idxs, []⟩⟩

def bothStep (s : BothTables) (a : TableAction) : Option BothTables :=
  some ⟨s.watch.run W .watch a, s.timeout.run W .timeout a⟩

/-! ## The property -/

/-- The calls are the same, none is of element 0, and the same objects stand in the same slots. -/
structure Alike (s : BothTables) : Prop where
  calls : s.watch.calls = s.timeout.calls
  watchNonzero : ∀ c ∈ s.watch.calls, c.elementIndex ≠ 0
  timeoutNonzero : ∀ c ∈ s.timeout.calls, c.elementIndex ≠ 0
  objects : s.watch.idxs.map DbusFreeDataIdx.object = s.timeout.idxs.map DbusFreeDataIdx.object

/-- A slot with an old free function, of which the new one is absent just when the new data is, unless it
is free already. -/
def DbusFreeDataIdx.Plain (e : DbusFreeDataIdx) : Prop :=
  e.idxOld ≠ 0 ∧ (e.object ≠ null → (e.idxNew = 0 ↔ e.dataNew = null))

instance : DecidablePred DbusFreeDataIdx.Plain := fun _ => inferInstanceAs (Decidable (_ ∧ _))

/-- The slot that a free proxy finds is plain. -/
def FreesPlain (s : BothTables) : TableAction → Prop
  | .setData .. => True
  | .freeData data =>
    data ≠ null → ∀ i ∈ find DbusFreeDataIdx.dataOld data s.watch.idxs, ∀ e ∈ s.watch.idxs[i]?, e.Plain

instance (s : BothTables) : DecidablePred (FreesPlain s)
  | .setData .. => isTrue trivial
  | .freeData data => by
    have hslot (i : ℕ) : Decidable (∀ e ∈ s.watch.idxs[i]?, e.Plain) := Option.decidableForallMem _
    have hfind : Decidable (∀ i ∈ find DbusFreeDataIdx.dataOld data s.watch.idxs,
        ∀ e ∈ s.watch.idxs[i]?, e.Plain) := Option.decidableForallMem _
    unfold FreesPlain
    infer_instance

/-! ## One invocation of the proxies -/

variable {W k} {t : List DbusFreeDataIdx} {data : Addr} {e : DbusFreeDataIdx} {i : ℕ} {s u : BothTables}

theorem setDataFreeData_none (h : data = null ∨ find DbusFreeDataIdx.dataOld data t = none) :
    setDataFreeData W k t data = (t, none) := by
  unfold setDataFreeData
  rcases h with h | h
  · rw [if_pos h]
  · rw [h]
    split_ifs <;> rfl

theorem setDataFreeData_some (hd : data ≠ null) (hi : find DbusFreeDataIdx.dataOld data t = some i)
    (he : t[i]? = some e) : setDataFreeData W k t data = (if k.spent e then t.set i e.drop else t,
      k.call e.dbusEnv e.idxOld [W.addrNativeToApp (W.getModuleInst e.dbusEnv) data]) := by
  unfold setDataFreeData
  rw [if_neg hd, hi, Option.bind_some, he]
  rfl

/-- On a plain slot the two proxies do the same, and call an element other than 0. -/
theorem setDataFreeData_plain (hd : data ≠ null) (hi : find DbusFreeDataIdx.dataOld data t = some i)
    (he : t[i]? = some e) (hplain : e.Plain) :
    setDataFreeData W .watch t data = setDataFreeData W .timeout t data ∧
      ∀ c ∈ (setDataFreeData W .watch t data).2, c.elementIndex ≠ 0 := by
  obtain ⟨hidx, hspent⟩ := hplain
  rw [setDataFreeData_some hd hi he, setDataFreeData_some hd hi he]
  refine ⟨Prod.ext ?_ ?_, fun c hc => ?_⟩
  · by_cases ho : e.object = null
    · -- giving up a slot that is free changes nothing
      have hdrop : t.set i e.drop = t := by
        have heq : e.drop = e := by
          unfold DbusFreeDataIdx.drop
          rw [← ho]
        obtain ⟨hlt, rfl⟩ := List.getElem?_eq_some_iff.1 he
        rw [heq, List.set_getElem_self]
      simp only [hdrop, ite_self]
    · have hspent' : FreeDataKind.watch.spent e = FreeDataKind.timeout.spent e :=
        decide_eq_decide.2 (hspent ho)
      simp only [hspent']
  · show some _ = wasmRuntimeCallIndirectInternal _ _ _
    rw [wasmRuntimeCallIndirectInternal, if_neg hidx]
  · cases hc
    exact hidx

/-- On any other slot they part: element 0 is called, or one of them gives the slot up. -/
theorem setDataFreeData_not_plain (hd : data ≠ null) (hi : find DbusFreeDataIdx.dataOld data t = some i)
    (he : t[i]? = some e) (hplain : ¬ e.Plain) :
    (∃ c ∈ (setDataFreeData W .watch t data).2, c.elementIndex = 0) ∨
      (setDataFreeData W .watch t data).1.map DbusFreeDataIdx.object ≠
        (setDataFreeData W .timeout t data).1.map DbusFreeDataIdx.object := by
  rw [setDataFreeData_some hd hi he, setDataFreeData_some hd hi he]
  by_cases hidx : e.idxOld = 0
  · exact .inl ⟨_, rfl, hidx⟩
  · right
    have hlt : i < t.length := (List.getElem?_eq_some_iff.1 he).1
    have ho : e.object ≠ null := fun ho => hplain ⟨hidx, fun hne => absurd ho hne⟩
    have hiff : ¬ (e.idxNew = 0 ↔ e.dataNew = null) := fun hiff => hplain ⟨hidx, fun _ => hiff⟩
    have hne : (t.set i e.drop).map DbusFreeDataIdx.object ≠ t.map DbusFreeDataIdx.object := by
      intro heq
      have hobj := congrArg (fun l => l[i]?) heq
      simp only [List.getElem?_map, List.getElem?_set_self hlt, he, Option.map_some, Option.some.injEq] at hobj
      exact ho hobj.symm
    by_cases hnew : e.idxNew = 0
    · have hdata : e.dataNew ≠ null := fun hdata => hiff (iff_of_true hnew hdata)
      simpa [FreeDataKind.watch, FreeDataKind.timeout, hnew, hdata] using hne
    · have hdata : e.dataNew = null := by
        by_contra hdata
        exact hiff (iff_of_false hnew hdata)
      simpa [FreeDataKind.watch, FreeDataKind.timeout, hnew, hdata] using hne.symm

/-! ## Runs -/

/-- The tables are equal, and no call is of element 0. -/
structure Twin (s : BothTables) : Prop where
  same : s.watch = s.timeout
  nonzero : ∀ c ∈ s.watch.calls, c.elementIndex ≠ 0

theorem alike_of_twin (h : Twin s) : Alike s :=
  ⟨by rw [h.same], h.nonzero, h.same ▸ h.nonzero, by rw [h.same]⟩

theorem twin_step {a : TableAction} (h : Twin s) (hok : FreesPlain s a) (ht : bothStep W s a = some u) : Twin u := by
  obtain ⟨d, d'⟩ := s
  obtain ⟨hsame, hnonzero⟩ := h
  obtain rfl : d = d' := hsame
  cases ht
  cases a with
  | setData => exact ⟨rfl, hnonzero⟩
  | freeData data =>
    have hfree : setDataFreeData W .watch d.idxs data = setDataFreeData W .timeout d.idxs data ∧
        ∀ c ∈ (setDataFreeData W .watch d.idxs data).2, c.elementIndex ≠ 0 := by
      by_cases hd : data = null
      · rw [setDataFreeData_none (.inl hd), setDataFreeData_none (.inl hd)]
        exact ⟨rfl, fun c hc => (by cases hc)⟩
      · cases hi : find DbusFreeDataIdx.dataOld data d.idxs with
        | none =>
          rw [setDataFreeData_none (.inr hi), setDataFreeData_none (.inr hi)]
          exact ⟨rfl, fun c hc => (by cases hc)⟩
        | some i =>
          obtain ⟨e, he, -, -⟩ := find_eq_some.1 hi
          exact setDataFreeData_plain hd hi he (hok hd i hi e he)
    refine ⟨?_, fun c hc => ?_⟩
    · simp only [DataTable.run, hfree.1]
    · rcases List.mem_append.1 hc with hc | hc
      · exact hnonzero c hc
      · exact hfree.2 c (Option.mem_toList.1 hc)

theorem not_alike_step {a : TableAction} (h : Twin s) (hok : ¬ FreesPlain s a) (ht : bothStep W s a = some u) :
    ¬ Alike u := by
  obtain ⟨d, d'⟩ := s
  obtain rfl : d = d' := h.same
  cases ht
  rintro ⟨-, hnonzero, -, hobjects⟩
  cases a with
  | setData => exact hok trivial
  | freeData data =>
    refine hok fun hd i hi e he => ?_
    by_contra hplain
    rcases setDataFreeData_not_plain (W := W) hd hi he hplain with ⟨c, hc, h0⟩ | hne
    · exact hnonzero c (List.mem_append_right _ (Option.mem_toList.2 hc)) h0
    · exact hne hobjects

/-- The tables are alike all along a run exactly when each free proxy finds a plain slot, or none. -/
theorem alike_iff_plain {as : List TableAction} (h : exec (bothStep W) .start as = some s) :
    Along (bothStep W) Alike .start as ↔ Meets (bothStep W) FreesPlain .start as := by
  refine along_iff_meets (fun _ => alike_of_twin) (fun _ _ _ ht hok hstep => twin_step ht hok hstep)
    (fun _ _ _ ht hok hstep => not_alike_step ht hok hstep) ?_ h
  exact ⟨rfl, fun c hc => (by cases hc)⟩

/-- The data of an object is replaced and then taken back. -/
def replacedAndTakenBack : List TableAction :=
  [.setData 1 0x2000 0x3000 5, .setData 1 0x2000 0x3400 6, .freeData 0x3000, .setData 1 0x2000 null 0, .freeData 0x3400]

theorem alike_replacedAndTakenBack : Along (bothStep userDataWamr) Alike .start replacedAndTakenBack := by
  have hm : Meets (bothStep userDataWamr) FreesPlain .start replacedAndTakenBack := by decide
  exact (alike_iff_plain rfl).2 hm

/-- Data without a free function is replaced. -/
def withoutFunction : List TableAction := [.setData 1 0x2000 0x3000 0, .setData 1 0x2000 0x3400 6, .freeData 0x3000]

/-- The watch proxy calls element 0. -/
theorem withoutFunction_not_alike :
    ¬ ∀ (W : Wamr) (as : List TableAction) (s : BothTables), exec (bothStep W) .start as = some s → Alike s := by
  intro h
  have halike := h userDataWamr withoutFunction _ rfl
  exact absurd halike.calls (by decide)

end VelaWasm.Dbus
