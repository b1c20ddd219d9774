/-
Pending-call notifications: `glue_dbus_pending_call_set_notify` and the two proxies libdbus calls,
over every sequence of registrations, replacements and releases. Slots are taken and released by
data, while the notify proxy searches by pending call and a release leaves the pending call in its
slot, so each registration needs both searches to end in its slot.
-/
import VelaWasm.Dbus.CallIdx
import VelaWasm.Lib.Run

namespace VelaWasm.Dbus

open VelaWasm.Run VelaWasm.SlotTable

/-! ## The glue -/

/-- `dbus_pending_call_idx` -/
structure DbusPendingCallIdx where
  notifyIdx : UInt32
  freeDataIdx : UInt32
  pending : Addr
  data : Addr
  dbusEnv : Addr
  deriving DecidableEq, Repr

variable (W : Wamr)

/-- `dbus_pending_call_notify_proxy` -/
def dbusPendingCallNotifyProxy (t : List DbusPendingCallIdx) (pending userData : Addr) : Option WasmCall :=
  if pending = null then none
  else
    (slotCall W DbusPendingCallIdx.pending DbusPendingCallIdx.dbusEnv DbusPendingCallIdx.notifyIdx t pending
      [pending, userData]).bind fun r => r.2.2

/-- `dbus_pending_call_set_notify_free_data` -/
def dbusPendingCallSetNotifyFreeData (t : List DbusPendingCallIdx) (data : Addr) :
    List DbusPendingCallIdx × Option WasmCall :=
  releaseProxy W DbusPendingCallIdx.data DbusPendingCallIdx.dbusEnv DbusPendingCallIdx.freeDataIdx
    (fun e => { e with data := null }) t data [data]

/-- `glue_dbus_pending_call_set_notify` up to its call of libdbus. -/
def glueDbusPendingCallSetNotify (t : List DbusPendingCallIdx) (env parm1 : Addr) (parm2 : UInt32)
    (parm3 : Addr) (parm4 : UInt32) : List DbusPendingCallIdx × Option Nat :=
  fill DbusPendingCallIdx.data null t ⟨parm2, parm4, parm1, parm3, env⟩

/-! ## Runs -/

/-- A notify function set in libdbus, as it was given to the glue, and the slot the glue wrote. -/
structure Notify where
  pending : Addr
  function : UInt32
  userData : Addr
  freeUserData : UInt32
  env : Addr
  slot : Option Nat
  deriving DecidableEq, Repr

def Notify.entry (r : Notify) : DbusPendingCallIdx :=
  ⟨r.function, r.freeUserData, r.pending, r.userData, r.env⟩

/-- The table, the registrations whose data is not freed yet, and the one of them that libdbus has
just replaced and is about to free. -/
structure NotifyState where
  callIdx : List DbusPendingCallIdx
  notifies : List Notify
  replaced : Option Nat

/-- The registrations that are set. -/
def NotifyState.live (s : NotifyState) : List Notify :=
  match s.replaced with
  | none => s.notifies
  | some k => s.notifies.eraseIdx k

inductive NotifyAction where
  /-- the application sets a notify function; libdbus accepts it or runs out of memory -/
  | setNotify (env pending : Addr) (function : UInt32) (userData : Addr) (freeUserData : UInt32)
      (accepted : Bool)
  /-- libdbus frees the data of the notify function that was replaced -/
  | freeReplaced
  /-- libdbus finalises a pending call and frees the data of its notify function -/
  | finalize (pending : Addr)

def NotifyState.start : NotifyState :=
  ⟨List.replicate dbusPendingCallIdxMax ⟨0, 0, null, null, null⟩, [], none⟩

/-- Where the notify function of a pending call is registered. -/
def NotifyState.indexOf (s : NotifyState) (pending : Addr) : Option Nat :=
  s.notifies.findIdx? fun r => decide (r.pending = pending)

/-- libdbus frees the data of the registration at `k`. -/
def NotifyState.free (s : NotifyState) (k : Nat) : Option NotifyState :=
  s.notifies[k]?.map fun r =>
    ⟨(dbusPendingCallSetNotifyFreeData W s.callIdx r.userData).1, s.notifies.eraseIdx k, none⟩

/-- One call of the glue with non-null data, or of libdbus, which frees what it has replaced before
it returns and accepts no null pending call. -/
def notifyStep (s : NotifyState) : NotifyAction → Option NotifyState
  | .setNotify env p fn d free accepted =>
    if s.replaced ≠ none ∨ d = null ∨ (accepted = true ∧ p = null) then none
    else
      let (t, slot) := glueDbusPendingCallSetNotify s.callIdx env p fn d free
      some <|
        if accepted then ⟨t, s.notifies ++ [⟨p, fn, d, free, env, slot⟩], s.indexOf p⟩
        else ⟨t, s.notifies, none⟩
  | .freeReplaced => s.replaced.bind (s.free W)
  | .finalize p => if s.replaced ≠ none then none else (s.indexOf p).bind (s.free W)

/-- Completion of a pending call runs the notify function set for it, in its env; the free proxy
calls the own free function of a registration and clears its own slot, which no other shares. -/
structure NotifyFaithful (s : NotifyState) : Prop where
  notify : ∀ r ∈ s.live, dbusPendingCallNotifyProxy W s.callIdx r.pending r.userData =
    callOnApp W r.env r.function [r.pending, r.userData]
  free : ∀ r ∈ s.notifies, ∃ i, r.slot = some i ∧ s.callIdx[i]? = some r.entry ∧
    dbusPendingCallSetNotifyFreeData W s.callIdx r.userData =
      (s.callIdx.set i { r.entry with data := null }, callOnApp W r.env r.freeUserData [r.userData])
  slots : (s.notifies.map Notify.slot).Nodup

/-- No slot before the first free one holds the data or the pending call of an accepted registration,
and no later one is a registration's with the data, or with the pending call, that is written. -/
def FreshNotify (s : NotifyState) : NotifyAction → Prop
  | .setNotify env p fn d free accepted =>
    let e : DbusPendingCallIdx := ⟨fn, free, p, d, env⟩
    Fresh DbusPendingCallIdx.data null Notify.slot Notify.entry s.callIdx s.notifies e accepted ∧
      ∀ i ∈ find DbusPendingCallIdx.data null s.callIdx,
        if accepted then ∀ f ∈ s.callIdx.take i, f.pending ≠ p
        else Behind DbusPendingCallIdx.pending Notify.slot Notify.entry s.live e i
  | _ => True

instance (s : NotifyState) : DecidablePred (FreshNotify s)
  | .setNotify .. => inferInstanceAs (Decidable (Fresh .. ∧ ∀ i ∈ find .., _))
  | .freeReplaced | .finalize _ => isTrue trivial

/-! ## The invariant -/

/-- A search by data ends in the slot of each registration, a search by pending call in the slot of
each one that is set. -/
structure NotifyKept (s : NotifyState) : Prop where
  data : Kept DbusPendingCallIdx.data null Notify.slot Notify.entry s.callIdx s.notifies
  pending : Found DbusPendingCallIdx.pending Notify.slot Notify.entry s.callIdx s.live
  pending_ne : ∀ r ∈ s.notifies, r.pending ≠ null

variable {W} {s t : NotifyState}

theorem notifyKept_start : NotifyKept NotifyState.start :=
  ⟨kept_replicate _ _ _ _, fun _ hr => (by cases hr), fun _ hr => (by cases hr)⟩

theorem live_sublist (s : NotifyState) : s.live.Sublist s.notifies := by
  unfold NotifyState.live
  split
  · exact List.Sublist.refl _
  · exact List.eraseIdx_sublist _ _

theorem freeData_eq (h : NotifyKept s) {r : Notify} (hr : r ∈ s.notifies) :
    ∃ i, r.slot = some i ∧ s.callIdx[i]? = some r.entry ∧
      dbusPendingCallSetNotifyFreeData W s.callIdx r.userData =
        (s.callIdx.set i { r.entry with data := null }, callOnApp W r.env r.freeUserData [r.userData]) := by
  obtain ⟨i, hi, he, hf⟩ := h.data.find hr
  exact ⟨i, hi, he, releaseProxy_eq (h.data.recorded.key_ne r hr) hf he _ _⟩

theorem notifyFaithful_of_kept (h : NotifyKept s) : NotifyFaithful W s := by
  refine ⟨fun r hr => ?_, fun r hr => freeData_eq h hr, h.data.recorded.nodup⟩
  have hmem : r ∈ s.notifies := (live_sublist s).subset hr
  obtain ⟨i, hi, he⟩ := h.data.recorded.at_slot r hmem
  have hf : find DbusPendingCallIdx.pending r.entry.pending s.callIdx = some i := (h.pending r hr).trans hi
  have hcall : slotCall W DbusPendingCallIdx.pending DbusPendingCallIdx.dbusEnv DbusPendingCallIdx.notifyIdx
      s.callIdx r.pending [r.pending, r.userData] =
      some (i, r.entry, callOnApp W r.env r.function [r.pending, r.userData]) := slotCall_eq hf he _
  unfold dbusPendingCallNotifyProxy
  rw [if_neg (h.pending_ne r hmem)]
  exact congrArg (fun x => x.bind fun c => c.2.2) hcall

/-- A release keeps the registrations that are not `r` as they are: the slot it clears keeps its
pending call. -/
theorem notifyKept_free {k : Nat} (h : NotifyKept s) (hlive : (s.notifies.eraseIdx k).Sublist s.live)
    (ht : s.free W k = some t) : NotifyKept t := by
  obtain ⟨r, hr, rfl⟩ := Option.map_eq_some_iff.1 ht
  have hmem := List.mem_of_getElem? hr
  obtain ⟨i, hi, he, heq⟩ := freeData_eq (W := W) h hmem
  rw [heq]
  refine ⟨?_, fun q hq => ?_, fun q hq => h.pending_ne q ((List.eraseIdx_sublist _ _).subset hq)⟩
  · exact h.data.release (List.eraseIdx_sublist _ _) hmem (h.data.recorded.not_mem_eraseIdx hr) hi rfl
  · refine (find_set_same he ?_).trans (h.pending q (hlive.subset hq))
    rfl

/-- Registrations that are set for one pending call are the same. -/
theorem eq_of_pending (h : NotifyKept s) {q r : Notify} (hq : q ∈ s.live) (hr : r ∈ s.live)
    (hp : q.pending = r.pending) : q = r := by
  have hslot : q.slot = r.slot := by
    rw [← h.pending q hq, ← h.pending r hr]
    exact congrArg (find DbusPendingCallIdx.pending · s.callIdx) hp
  exact List.inj_on_of_nodup_map h.data.recorded.nodup ((live_sublist s).subset hq)
    ((live_sublist s).subset hr) hslot

/-- What a call of the glue does. -/
theorem notifyStep_setNotify {env p : Addr} {fn : UInt32} {d : Addr} {free : UInt32} {accepted : Bool}
    (ht : notifyStep W s (.setNotify env p fn d free accepted) = some t) :
    s.replaced = none ∧ d ≠ null ∧ (accepted = true → p ≠ null) ∧
      t = ⟨(glueDbusPendingCallSetNotify s.callIdx env p fn d free).1,
        if accepted then
          s.notifies ++ [⟨p, fn, d, free, env, (glueDbusPendingCallSetNotify s.callIdx env p fn d free).2⟩]
        else s.notifies,
        if accepted then s.indexOf p else none⟩ := by
  simp only [notifyStep] at ht
  by_cases hc : s.replaced ≠ none ∨ d = null ∨ (accepted = true ∧ p = null)
  · rw [if_pos hc] at ht
    cases ht
  · rw [if_neg hc] at ht
    simp only [not_or, not_and, not_not] at hc
    refine ⟨hc.1, hc.2.1, hc.2.2, ?_⟩
    cases accepted <;> exact (Option.some.inj ht).symm

/-- After an accepted registration, what is set is the new one and those for other pending calls. -/
theorem live_accepted (h : NotifyKept s) (hrep : s.replaced = none) (t : List DbusPendingCallIdx) (r : Notify) :
    ∀ q ∈ NotifyState.live ⟨t, s.notifies ++ [r], s.indexOf r.pending⟩,
      q = r ∨ q ∈ s.notifies ∧ q.pending ≠ r.pending := by
  have hlive : s.live = s.notifies := by rw [NotifyState.live, hrep]
  intro q hq
  cases hk : s.indexOf r.pending with
  | none =>
    rw [NotifyState.live, hk] at hq
    rcases List.mem_append.1 hq with hq | hq
    · exact .inr ⟨hq, by simpa using List.findIdx?_eq_none_iff.1 hk q hq⟩
    · exact .inl (List.mem_singleton.1 hq)
  | some k =>
    rw [NotifyState.live, hk] at hq
    obtain ⟨hlt, hp, -⟩ := List.findIdx?_eq_some_iff_getElem.1 hk
    simp only [List.eraseIdx_append_of_lt_length hlt] at hq
    rcases List.mem_append.1 hq with hq | hq
    · refine .inr ⟨(List.eraseIdx_sublist _ _).subset hq, fun hqp => ?_⟩
      -- `q` would be the registration at `k`
      have hat : s.notifies[k]? = some s.notifies[k] := List.getElem?_eq_getElem hlt
      have hpk : s.notifies[k].pending = r.pending := by simpa using hp
      have hqk : q = s.notifies[k] := by
        apply eq_of_pending h
        · rw [hlive]
          exact (List.eraseIdx_sublist _ _).subset hq
        · rw [hlive]
          exact List.getElem_mem hlt
        · rw [hqp, hpk]
      exact h.data.recorded.not_mem_eraseIdx hat (hqk ▸ hq)
    · exact .inl (List.mem_singleton.1 hq)

theorem notifyKept_setNotify {env p : Addr} {fn : UInt32} {d : Addr} {free : UInt32} {accepted : Bool}
    (h : NotifyKept s) (hok : FreshNotify s (.setNotify env p fn d free accepted))
    (ht : notifyStep W s (.setNotify env p fn d free accepted) = some t) : NotifyKept t := by
  obtain ⟨hrep, hd, hp, rfl⟩ := notifyStep_setNotify ht
  obtain ⟨hfresh, hpend⟩ := hok
  have hlive : s.live = s.notifies := by rw [NotifyState.live, hrep]
  -- the registration the call makes, with the slot the glue wrote
  let r : Notify := ⟨p, fn, d, free, env, (glueDbusPendingCallSetNotify s.callIdx env p fn d free).2⟩
  have hdata := (h.data.fill_iff (r := r) rfl fun _ => hd).2 hfresh
  refine ⟨hdata, ?_, forall_mem_accepted h.pending_ne hp⟩
  have hfound := h.pending
  rw [hlive] at hfound hpend
  cases hi : find DbusPendingCallIdx.data null s.callIdx with
  | none =>
    obtain rfl := hfresh.1 hi
    have htable : (glueDbusPendingCallSetNotify s.callIdx env p fn d free).1 = s.callIdx := by
      rw [glueDbusPendingCallSetNotify, fill, hi]
    rw [htable]
    exact hfound
  | some i =>
    have hfill : glueDbusPendingCallSetNotify s.callIdx env p fn d free = (s.callIdx.set i r.entry, some i) := by
      rw [glueDbusPendingCallSetNotify, fill, hi]
      rfl
    have hother := h.data.recorded.slot_ne_free hi
    have hpend := hpend i hi
    rw [hfill]
    cases accepted with
    | false => exact (h.data.recorded.found_set_iff hfound r.entry hother).2 hpend
    | true =>
      intro q hq
      rcases live_accepted h hrep _ ⟨p, fn, d, free, env, some i⟩ q hq with rfl | ⟨hq, hne⟩
      · obtain ⟨f, hf, -⟩ := find_eq_some.1 hi
        exact (find_set_self (List.getElem?_eq_some_iff.1 hf).1).2 hpend
      · exact (h.data.recorded.find_set_iff hq (hfound q hq) r.entry (hother q hq)).2 fun hk => absurd hk hne

theorem notifyKept_step {a : NotifyAction} (h : NotifyKept s) (hok : FreshNotify s a)
    (ht : notifyStep W s a = some t) : NotifyKept t := by
  cases a with
  | setNotify env p fn d free accepted => exact notifyKept_setNotify h hok ht
  | freeReplaced =>
    obtain ⟨k, hk, ht⟩ := Option.bind_eq_some_iff.1 ht
    refine notifyKept_free h ?_ ht
    rw [NotifyState.live, hk]
  | finalize p =>
    simp only [notifyStep] at ht
    by_cases hrep : s.replaced ≠ none
    · rw [if_pos hrep] at ht
      cases ht
    · rw [if_neg hrep] at ht
      obtain ⟨k, -, ht⟩ := Option.bind_eq_some_iff.1 ht
      refine notifyKept_free h ?_ ht
      rw [NotifyState.live, not_not.1 hrep]
      exact List.eraseIdx_sublist _ _

/-! ## Notification -/

/-- In a run whose registrations are all fresh, every notification and every release reaches the
registration it is for. -/
theorem notifyFaithful_of_fresh {as : List NotifyAction}
    (hm : Meets (notifyStep W) FreshNotify NotifyState.start as)
    (h : exec (notifyStep W) NotifyState.start as = some s) : NotifyFaithful W s :=
  notifyFaithful_of_kept <|
    exec_invariant (fun _ _ _ hk hok ht => notifyKept_step hk hok ht) notifyKept_start hm h

def notifyWamr : Wamr := .linear id fun _ => 0x1000

/-- A pending call that is set again in a slot before its first one. -/
def setAgainBefore : List NotifyAction :=
  [.setNotify 1 0x2000 5 0x3000 6 true, .setNotify 1 0x2400 7 0x3400 8 true, .finalize 0x2000,
    .setNotify 1 0x2400 9 0x3800 10 true, .freeReplaced]

theorem notifyFaithful_setAgainBefore :
    ∃ s, exec (notifyStep notifyWamr) NotifyState.start setAgainBefore = some s ∧ NotifyFaithful notifyWamr s := by
  have hm : Meets (notifyStep notifyWamr) FreshNotify NotifyState.start setAgainBefore := by decide
  exact ⟨_, rfl, notifyFaithful_of_fresh hm rfl⟩

/-- A pending call that is set again in a slot after its first one. -/
def setAgainAfter : List NotifyAction :=
  [.setNotify 1 0x2000 5 0x3000 6 true, .setNotify 1 0x2000 7 0x3400 8 true, .freeReplaced]

/-- Completion runs the function that was replaced: the slot of the first registration still names
the pending call. -/
theorem replaced_notified :
    ¬ ∀ (W : Wamr) (as : List NotifyAction) (s : NotifyState), exec (notifyStep W) NotifyState.start as = some s →
      s.notifies.length < dbusPendingCallIdxMax → NotifyFaithful W s := by
  intro h
  have hf := h notifyWamr setAgainAfter _ rfl (by decide)
  have hn := hf.notify ⟨0x2000, 7, 0x3400, 8, 1, some 1⟩ (by decide)
  exact absurd hn (by decide)

end VelaWasm.Dbus
