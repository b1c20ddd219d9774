/-
What a registration leaves behind when it fails: `glue_dbus_connection_add_filter`,
`glue_dbus_connection_register_object_path`, `glue_dbus_connection_set_watch_functions` and
`glue_dbus_pending_call_set_notify`. Each writes its record into the first free slot, if there is one, and
returns what libdbus answers; none looks at that answer, or at whether a slot was found.
-/
import VelaWasm.Dbus.Filter
import VelaWasm.Dbus.ObjectPath
import VelaWasm.Dbus.PendingCall
import VelaWasm.Dbus.Watch

namespace VelaWasm.Dbus

open VelaWasm.SlotTable

/-! ## Outcomes -/

/-- What libdbus answers to a registration. When it accepts one in the place of another it frees the data
of the other, through the release proxy, before it returns. -/
inductive LibdbusAnswer where
  | refused
  | accepted (replaced : Option Addr)
  deriving DecidableEq, Repr

/-- What a wrapper leaves: its table, whether its proxies are installed in libdbus, and what it
returns. -/
structure Outcome (E : Type*) where
  callIdx : List E
  installed : Bool
  ret : Bool
  deriving DecidableEq, Repr

section

variable {E : Type*} (key : E → Addr)

/-- The second half of a wrapper: the call of libdbus, with the table `t` as the slot search left it. -/
def callLibdbus (free : List E → Addr → List E) (t : List E) : LibdbusAnswer → Outcome E
  | .refused => ⟨t, false, false⟩
  | .accepted none => ⟨t, true, true⟩
  | .accepted (some d) => ⟨free t d, true, true⟩

/-- The record `e` is in a slot that was free, the proxies are installed and the wrapper returns true; or
the wrapper returns false and has changed nothing. -/
def AllOrNothing (t : List E) (e : E) (o : Outcome E) : Prop :=
  (key e ≠ null ∧ (∃ i : ℕ, o.callIdx[i]? = some e ∧ ∃ f, t[i]? = some f ∧ key f = null) ∧ o.installed = true ∧
    o.ret = true) ∨
    (o.ret = false ∧ o.callIdx = t ∧ o.installed = false)

/-- There is a free slot and libdbus accepts, without a release that ends in the slot just written; or
libdbus refuses, and there is no free slot or it holds the record already. -/
def Completes (t : List E) (e : E) (answer : LibdbusAnswer) : Prop :=
  match find key null t, answer with
  | none, answer => answer = .refused
  | some i, .refused => t[i]? = some e
  | some i, .accepted replaced => key e ≠ null ∧ ∀ d ∈ replaced, d = key e → ∃ f ∈ t.take i, key f = d

instance [DecidableEq E] (t : List E) (e : E) (answer : LibdbusAnswer) : Decidable (Completes key t e answer) := by
  unfold Completes
  split
  · infer_instance
  · infer_instance
  · exact @instDecidableAnd _ _ _ (Option.decidableForallMem _)

variable {key} {W : Wamr} {env : E → Addr} {fn : E → UInt32} {clear : E → E} {t : List E} {e : E}

/-- A release leaves the record in its slot unless its search ends there. -/
theorem getElem?_releaseProxy {i : Nat} {d : Addr} (he : t[i]? = some e) (hd : find key d t ≠ some i)
    (args : List Addr) : (releaseProxy W key env fn clear t d args).1[i]? = some e := by
  unfold releaseProxy
  split_ifs with hnull
  · exact he
  · cases hf : find key d t with
    | none => simpa [slotCall, hf] using he
    | some j =>
      obtain ⟨f, hj, -, -⟩ := find_eq_some.1 hf
      have hne : j ≠ i := fun hji => hd (hji ▸ hf)
      simp only [slotCall, hf, Option.bind_some, hj, Option.map_some]
      rw [List.getElem?_set_ne hne, he]

/-- A registration is all or nothing exactly when it completes, whatever libdbus answers. -/
theorem callLibdbus_allOrNothing_iff (hclear : ∀ f, key (clear f) = null) (args : Addr → List Addr)
    (answer : LibdbusAnswer) :
    AllOrNothing key t e (callLibdbus (fun t d => (releaseProxy W key env fn clear t d (args d)).1)
      (fill key null t e).1 answer) ↔ Completes key t e answer := by
  unfold AllOrNothing Completes fill
  cases hi : find key null t with
  | none =>
    have hfull := find_eq_none.1 hi
    have hno : ∀ f i, t[i]? = some f → key f ≠ null := fun f i hf => hfull f (List.mem_of_getElem? hf)
    rcases answer with _ | _ | d
    · simp [callLibdbus]
    all_goals
      simp only [callLibdbus, reduceCtorEq, and_true, false_and, or_false, iff_false]
      rintro ⟨-, i, -, f, hf, hnull⟩
      exact hno f i hf hnull
  | some i =>
    obtain ⟨f, hf, hnull, hlt⟩ := find_eq_some.1 hi
    obtain ⟨hlen, -⟩ := List.getElem?_eq_some_iff.1 hf
    have hset : (t.set i e)[i]? = some e := List.getElem?_set_self hlen
    rcases answer with _ | _ | d
    · simp only [callLibdbus, reduceCtorEq, and_false, false_or, true_and, and_true]
      constructor
      · intro h
        rw [← h, hset]
      · intro he
        obtain ⟨_, rfl⟩ := List.getElem?_eq_some_iff.1 he
        exact List.set_getElem_self hlen
    · simp only [callLibdbus, and_true, reduceCtorEq, false_and, or_false]
      constructor
      · rintro ⟨hkey, -⟩
        exact ⟨hkey, fun d hd => by cases hd⟩
      · rintro ⟨hkey, -⟩
        exact ⟨hkey, i, hset, f, hf, hnull⟩
    · simp only [callLibdbus, and_true, reduceCtorEq, false_and, or_false, Option.mem_some_iff, forall_eq']
      constructor
      · rintro ⟨hkey, j, hj, g, hg, hgnull⟩
        refine ⟨hkey, fun hd => ?_⟩
        by_contra hno
        push Not at hno
        -- the release ends in the slot just written and clears it
        subst hd
        have hself : find key (key e) (t.set i e) = some i := (find_set_self hlen).2 hno
        rw [releaseProxy_eq hkey hself hset, List.set_set] at hj
        rcases getElem?_set_some hj with ⟨-, he⟩ | ⟨-, hj⟩
        · rw [he] at hkey
          exact hkey (hclear e)
        · rw [hg] at hj
          exact hkey (Option.some.inj hj ▸ hgnull)
      · rintro ⟨hkey, hd⟩
        refine ⟨hkey, i, getElem?_releaseProxy hset (fun hfind => ?_) _, f, hf, hnull⟩
        obtain ⟨g, hg, hgd, hbefore⟩ := find_eq_some.1 hfind
        rw [hset] at hg
        cases hg
        obtain ⟨q, hq, hqd⟩ := hd hgd.symm
        rw [List.take_set_of_le (Nat.le_refl i)] at hbefore
        exact hbefore q hq hqd

end

/-! ## The wrappers -/

section

variable (W : Wamr)

/-- `glue_dbus_connection_add_filter`; libdbus replaces no filter. -/
def addFilterOutcome (t : List DbusHandleMessageCallIdx) (env parm1 : Addr) (parm2 : UInt32) (parm3 : Addr)
    (parm4 : UInt32) (accepted : Bool) : Outcome DbusHandleMessageCallIdx :=
  callLibdbus (fun t d => (dbusFreeFuncProxy W t d).1) (glueDbusConnectionAddFilter t env parm1 parm2 parm3 parm4).1
    (if accepted then .accepted none else .refused)

/-- `glue_dbus_connection_register_object_path`; libdbus replaces no path. -/
def registerObjectPathOutcome (t : List DbusGenericMessageCallIdx) (env parm1 : Addr) (table : DBusObjectPathVTable)
    (parm4 : Addr) (accepted : Bool) : Outcome DbusGenericMessageCallIdx :=
  callLibdbus (fun t c => (genericUnregisterProxy W t c null).1)
    (glueDbusConnectionRegisterObjectPath t env parm1 table parm4).1 (if accepted then .accepted none else .refused)

/-- `glue_dbus_connection_set_watch_functions` -/
def setWatchFunctionsOutcome (t : List DbusSetWatchFunc) (env : Addr) (parm2 parm3 parm4 : UInt32) (parm5 : Addr)
    (parm6 : UInt32) (answer : LibdbusAnswer) : Outcome DbusSetWatchFunc :=
  callLibdbus (fun t d => (dbusConnectionSetWatchFreeDataProxy W t d).1)
    (glueDbusConnectionSetWatchFunctions t env parm2 parm3 parm4 parm5 parm6).1 answer

/-- `glue_dbus_pending_call_set_notify` -/
def setNotifyOutcome (t : List DbusPendingCallIdx) (env parm1 : Addr) (parm2 : UInt32) (parm3 : Addr) (parm4 : UInt32)
    (answer : LibdbusAnswer) : Outcome DbusPendingCallIdx :=
  callLibdbus (fun t d => (dbusPendingCallSetNotifyFreeData W t d).1)
    (glueDbusPendingCallSetNotify t env parm1 parm2 parm3 parm4).1 answer

end

variable {W : Wamr}

/-- The table of the watches as a replacement leaves it is the one of the runs of the glue. -/
theorem setWatchFunctionsOutcome_callIdx (s : ConnTable DbusSetWatchFunc) (c env : Addr) (add remove toggled : UInt32)
    (d : Addr) (free : UInt32) :
    (setWatchFunctionsOutcome W s.callIdx env add remove toggled d free
      (.accepted ((s.current c).map fun r => r.entry.data))).callIdx =
      (s.setFunctions (freeWatchData W) c (watchFunc env add remove toggled d free)
        (glueDbusConnectionSetWatchFunctions s.callIdx env add remove toggled d free) true).callIdx := by
  unfold setWatchFunctionsOutcome ConnTable.setFunctions freeWatchData
  cases s.current c with
  | none => rfl
  | some r => rfl

/-- Each of the four wrappers registers all or nothing exactly when its registration completes. -/
theorem registration_allOrNothing_iff (W : Wamr) :
    (∀ (t : List DbusHandleMessageCallIdx) (env c : Addr) (fn : UInt32) (d : Addr) (free : UInt32) (accepted : Bool),
      AllOrNothing DbusHandleMessageCallIdx.data t ⟨fn, free, c, d, env⟩
          (addFilterOutcome W t env c fn d free accepted) ↔
        Completes DbusHandleMessageCallIdx.data t ⟨fn, free, c, d, env⟩
          (if accepted then .accepted none else .refused)) ∧
    (∀ (t : List DbusGenericMessageCallIdx) (env c : Addr) (table : DBusObjectPathVTable) (d : Addr) (accepted : Bool),
      AllOrNothing DbusGenericMessageCallIdx.connection t ⟨table.messageFunction, table.unregisterFunction, c, d, env⟩
          (registerObjectPathOutcome W t env c table d accepted) ↔
        Completes DbusGenericMessageCallIdx.connection t ⟨table.messageFunction, table.unregisterFunction, c, d, env⟩
          (if accepted then .accepted none else .refused)) ∧
    (∀ (t : List DbusSetWatchFunc) (env : Addr) (add remove toggled : UInt32) (d : Addr) (free : UInt32)
        (answer : LibdbusAnswer),
      AllOrNothing DbusSetWatchFunc.data t (watchFunc env add remove toggled d free)
          (setWatchFunctionsOutcome W t env add remove toggled d free answer) ↔
        Completes DbusSetWatchFunc.data t (watchFunc env add remove toggled d free) answer) ∧
    (∀ (t : List DbusPendingCallIdx) (env pending : Addr) (fn : UInt32) (d : Addr) (free : UInt32)
        (answer : LibdbusAnswer),
      AllOrNothing DbusPendingCallIdx.data t ⟨fn, free, pending, d, env⟩
          (setNotifyOutcome W t env pending fn d free answer) ↔
        Completes DbusPendingCallIdx.data t ⟨fn, free, pending, d, env⟩ answer) := by
  refine ⟨fun t env c fn d free accepted => ?_, fun t env c table d accepted => ?_,
    fun t env add remove toggled d free answer => ?_, fun t env pending fn d free answer => ?_⟩
  · refine callLibdbus_allOrNothing_iff (fun _ => ?_) (fun d => [d]) _
    rfl
  · refine callLibdbus_allOrNothing_iff (fun _ => ?_) (fun c => [c, null]) _
    rfl
  · refine callLibdbus_allOrNothing_iff (fun _ => ?_) (fun d => [d]) answer
    rfl
  · refine callLibdbus_allOrNothing_iff (fun _ => ?_) (fun d => [d]) answer
    rfl

/-- When libdbus refuses a filter, `glue_dbus_connection_add_filter` keeps the slot it has written. -/
theorem addFilter_not_allOrNothing :
    ¬ ∀ (W : Wamr) (t : List DbusHandleMessageCallIdx) (env c : Addr) (fn : UInt32) (d : Addr) (free : UInt32)
      (accepted : Bool), t.length = dbusPendingCallIdxMax → d ≠ null →
        AllOrNothing DbusHandleMessageCallIdx.data t ⟨fn, free, c, d, env⟩
          (addFilterOutcome W t env c fn d free accepted) := by
  intro h
  have hrefused := h filterWamr FilterState.start.callIdx 1 0x2000 5 0x3000 6 false (by decide) (by decide)
  rcases hrefused with ⟨-, -, hinstalled, -⟩ | ⟨-, htable, -⟩
  · exact absurd hinstalled (by decide)
  · exact absurd htable (by decide)

end VelaWasm.Dbus
