/-
Tables of the functions that the glue sets on connections: the watch, timeout and dispatch-status
functions. A call of the glue writes a record into the first free slot; libdbus keeps one registration
for each connection, and when it replaces or finalises one it frees its data through the release proxy of
the table. The first part is what the three tables share, the second the tables that are searched and
released under one key.
-/
import VelaWasm.Dbus.CallIdx

namespace VelaWasm.Dbus

open VelaWasm.SlotTable

/-! ## Definitions -/

/-- Functions set on a connection: the record the glue wrote for them and its slot. -/
structure ConnFunctions (E : Type*) where
  connection : Addr
  entry : E
  slot : Option Nat
  deriving DecidableEq, Repr

/-- A table of the glue and the functions that libdbus has set. -/
structure ConnTable (E : Type*) where
  callIdx : List E
  functions : List (ConnFunctions E)

section

variable {E : Type*}

/-- The functions set on a connection. -/
def ConnTable.current (s : ConnTable E) (c : Addr) : Option (ConnFunctions E) :=
  s.functions.find? fun r => decide (r.connection = c)

/-- The functions set on other connections. -/
def ConnTable.others (s : ConnTable E) (c : Addr) : List (ConnFunctions E) :=
  s.functions.filter fun r => decide (r.connection ≠ c)

variable (key : E → Addr) (free : List E → E → List E)

/-- A call of the glue that writes `e` and leaves `filled`, and of libdbus, which frees the data of the
functions it replaces; `free t e` is the table after the data of `e` is freed. -/
def ConnTable.setFunctions (s : ConnTable E) (c : Addr) (e : E) (filled : List E × Option Nat) (accepted : Bool) :
    ConnTable E :=
  if accepted then
    { callIdx :=
        match s.current c with
        | none => filled.1
        | some r => free filled.1 r.entry
      functions := s.others c ++ [⟨c, e, filled.2⟩] }
  else { s with callIdx := filled.1 }

/-- libdbus finalises a connection and frees the data of its functions. -/
def ConnTable.finalize (s : ConnTable E) (c : Addr) : Option (ConnTable E) :=
  (s.current c).map fun r => { callIdx := free s.callIdx r.entry, functions := s.others c }

/-- The table with the slot of the functions of `c` cleared. -/
def ConnTable.without (clear : E → E) (s : ConnTable E) (c : Addr) : List E :=
  match s.current c with
  | some ⟨_, e, some j⟩ => s.callIdx.set j (clear e)
  | _ => s.callIdx

/-- The record of a call goes behind the live ones with its key; if libdbus accepts the call it is
written, and no earlier slot has its key, apart from the one that is replaced. -/
def FreshFunctions (clear : E → E) (s : ConnTable E) (c : Addr) (e : E) (accepted : Bool) : Prop :=
  (find key null s.callIdx = none → accepted = false) ∧
    ∀ i ∈ find key null s.callIdx, Behind key ConnFunctions.slot ConnFunctions.entry s.functions e i ∧
      (accepted = true → ∀ f ∈ (s.without clear c).take i, key f ≠ key e)

instance (clear : E → E) (s : ConnTable E) (c : Addr) (e : E) (accepted : Bool) :
    Decidable (FreshFunctions key clear s c e accepted) :=
  inferInstanceAs (Decidable (_ ∧ ∀ i ∈ find key null s.callIdx, _))

/-! ## One registration for each connection -/

/-- Each record is in its slot, where a search for its key ends, and belongs to a connection of its
own. -/
structure TableKept (s : ConnTable E) : Prop where
  kept : Kept key null ConnFunctions.slot ConnFunctions.entry s.callIdx s.functions
  connections : (s.functions.map ConnFunctions.connection).Nodup

variable {key free} {s t : ConnTable E} {c : Addr} {e : E}

theorem current_eq_some {r : ConnFunctions E} (h : s.current c = some r) : r ∈ s.functions ∧ r.connection = c :=
  of_find?_key h

theorem others_sublist (s : ConnTable E) (c : Addr) : (s.others c).Sublist s.functions := List.filter_sublist

theorem mem_others {r : ConnFunctions E} : r ∈ s.others c ↔ r ∈ s.functions ∧ r.connection ≠ c := by
  simp [ConnTable.others]

/-- A connection without functions has nothing to be replaced. -/
theorem others_of_none (h : s.current c = none) : s.others c = s.functions := by
  refine List.filter_eq_self.2 fun r hr => ?_
  simpa using List.find?_eq_none.1 h r hr

theorem nodup_setFunctions (h : (s.functions.map ConnFunctions.connection).Nodup) (filled : List E × Option Nat)
    (accepted : Bool) : ((s.setFunctions free c e filled accepted).functions.map ConnFunctions.connection).Nodup := by
  cases accepted with
  | false => exact h
  | true =>
    show ((s.others c ++ [_]).map ConnFunctions.connection).Nodup
    rw [List.map_append, List.map_singleton, List.nodup_append]
    refine ⟨((others_sublist s c).map _).nodup h, List.nodup_singleton _, fun a ha b hb => ?_⟩
    obtain ⟨q, hq, rfl⟩ := List.mem_map.1 ha
    rw [List.mem_singleton.1 hb]
    exact (mem_others.1 hq).2

/-! ## Tables released under the key they are searched by -/

section

variable (clear : E → E) (hclear : ∀ e, key (clear e) = null)
  (hrelease : ∀ (t : List E) (e : E) (i : Nat), key e ≠ null → find key (key e) t = some i → t[i]? = some e →
    free t e = t.set i (clear e))

include hclear hrelease

theorem tableKept_setFunctions {accepted : Bool} (h : TableKept key s) (hkey : key e ≠ null)
    (hok : FreshFunctions key clear s c e accepted) :
    TableKept key (s.setFunctions free c e (fill key null s.callIdx e) accepted) := by
  refine ⟨?_, nodup_setFunctions h.connections _ accepted⟩
  let r : ConnFunctions E := ⟨c, e, (fill key null s.callIdx e).2⟩
  cases accepted with
  | false =>
    exact (h.kept.fill_iff (r := r) rfl fun _ => hkey).2 ⟨hok.1, fun i hi => ⟨(hok.2 i hi).1, fun h => (by cases h)⟩⟩
  | true =>
    cases hi : find key null s.callIdx with
    | none => cases hok.1 hi
    | some i =>
      obtain ⟨hb, hfirst⟩ := hok.2 i hi
      obtain ⟨f, hf, hnull, -⟩ := find_eq_some.1 hi
      have hfill : fill key null s.callIdx e = (s.callIdx.set i e, some i) := by rw [fill, hi]
      have hslot : r.slot = some i := congrArg Prod.snd hfill
      have hfirst := hfirst rfl
      simp only [ConnTable.setFunctions, hfill, if_true]
      cases hc : s.current c with
      | none =>
        rw [ConnTable.without, hc] at hfirst
        rw [others_of_none hc]
        exact (h.kept.set_iff (r := ⟨c, e, some i⟩) hf hnull rfl hkey).2 ⟨hb, hfirst⟩
      | some q =>
        obtain ⟨hq, hqc⟩ := current_eq_some hc
        obtain ⟨j, hj, hqe, hqf⟩ := h.kept.find hq
        have hne : j ≠ i := fun hji => h.kept.recorded.slot_ne_of_null hf hnull q hq (hji ▸ hj)
        -- the search for the data that is freed passes over the new record
        have hfind : find key (key q.entry) (s.callIdx.set i e) = some j :=
          (find_set_ne hqf hne).2 fun hk => hb q hq hk.symm j hj
        have hat : (s.callIdx.set i e)[j]? = some q.entry := by rw [List.getElem?_set_ne (Ne.symm hne), hqe]
        have hwithout : s.without clear c = s.callIdx.set j (clear q.entry) := by
          rw [ConnTable.without, hc]
          obtain ⟨_, _, _⟩ := q
          cases hj
          rfl
        rw [hwithout] at hfirst
        simp only [hrelease _ _ _ (h.kept.recorded.key_ne q hq) hfind hat]
        exact h.kept.replace (r := ⟨c, e, some i⟩) (others_sublist s c) hq (fun hm => (mem_others.1 hm).2 hqc) hj
          (hclear _) hf hnull rfl hkey (Behind.sublist hb (others_sublist s c)) hfirst

theorem tableKept_finalize (h : TableKept key s) (ht : s.finalize free c = some t) : TableKept key t := by
  obtain ⟨q, hc, rfl⟩ := Option.map_eq_some_iff.1 ht
  obtain ⟨hq, hqc⟩ := current_eq_some hc
  obtain ⟨j, hj, hqe, hqf⟩ := h.kept.find hq
  refine ⟨?_, ((others_sublist s c).map _).nodup h.connections⟩
  simp only [hrelease _ _ _ (h.kept.recorded.key_ne q hq) hqf hqe]
  exact h.kept.release (others_sublist s c) hq (fun hm => (mem_others.1 hm).2 hqc) hj (hclear _)

end

end

end VelaWasm.Dbus
