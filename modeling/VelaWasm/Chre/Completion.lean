/-
Completions of CHRE sends. A send whose pointer is already in the map of its kind, because an earlier
send is in flight or its callback is still running, overwrites that send's entry and loses its own when
the entry is erased. In runs without such a send every completion calls its own callback once.
-/
import VelaWasm.Chre.EventWrapper
import VelaWasm.Lib.Run
import Mathlib.Data.List.Perm.Basic

namespace VelaWasm.Chre

open VelaWasm.Run

variable (W : Wamr)

/-- Every completion so far called the callback of its own send, and no invalid iterator was erased. -/
structure OwnCallback (kind : SendKind) (c : Channel) : Prop where
  completed : ∀ p ∈ c.completed, p.2 = some (p.1.call W kind)
  defined : c.undefined = false

def OwnCallbacks (s : ChreState) : Prop := ∀ kind, OwnCallback W kind (s.channel kind)

/-- A send has a callback, and a pointer that is not in the map of its kind. -/
def FreshPointer (s : ChreState) : ChreAction → Prop
  | .send kind r => r.funcOffset ≠ 0 ∧ ((s.channel kind).map.find r.data).isNone
  | _ => True

instance (s : ChreState) : DecidablePred (FreshPointer s)
  | .send .. => inferInstanceAs (Decidable (_ ∧ _))
  | .complete .. | .finish => isTrue trivial

/-! ## The invariant -/

/-- The sends whose entry is still needed: those in flight and those whose callback is running. -/
def Channel.pending (c : Channel) : List Send := c.inFlight ++ c.calling.map Prod.snd

/-- The entry of each pending send is its own, no two pending sends have the same pointer, and each
running callback will erase its send's node. -/
structure ChannelInv (kind : SendKind) (c : Channel) : Prop where
  entry : ∀ r ∈ c.pending, ∃ i, c.map.find r.data = some ⟨i, r.data, ⟨r.execEnv, r.funcOffset⟩⟩
  offset : ∀ r ∈ c.pending, r.funcOffset ≠ 0
  pointers : (c.pending.map Send.data).Nodup
  items : ∀ p ∈ c.calling, ∃ n, c.map.find p.2.data = some n ∧ n.id = p.1
  own : OwnCallback W kind c

variable {W} {kind : SendKind} {c c' : Channel}

theorem channelInv_start : ChannelInv W kind Channel.start :=
  ⟨fun _ h => (by cases h), fun _ h => (by cases h), List.nodup_nil, fun _ h => (by cases h),
    ⟨fun _ h => (by cases h), rfl⟩⟩

theorem freeFunc_entry {r : Send} {i : Nat} (h : c.map.find r.data = some ⟨i, r.data, ⟨r.execEnv, r.funcOffset⟩⟩)
    (h0 : r.funcOffset ≠ 0) : freeFunc W kind c.map r.data r.arg = some (i, r.call W kind) := by
  unfold freeFunc
  rw [h]
  exact if_neg h0

theorem channelInv_send {r : Send} (h : ChannelInv W kind c) (h0 : r.funcOffset ≠ 0)
    (hf : c.map.find r.data = none) : ChannelInv W kind (c.send r) := by
  have hnew : ∀ q ∈ c.pending, q.data ≠ r.data := by
    intro q hq he
    obtain ⟨i, hi⟩ := h.entry q hq
    rw [he, hf] at hi
    cases hi
  have hmem : ∀ q ∈ (c.send r).pending, q = r ∨ q ∈ c.pending := by
    intro q hq
    simp only [Channel.pending, Channel.send, List.mem_append, List.mem_singleton] at hq ⊢
    tauto
  refine ⟨fun q hq => ?_, fun q hq => ?_, ?_, fun p hp => ?_, ⟨h.own.completed, h.own.defined⟩⟩
  · rcases hmem q hq with rfl | hq
    · exact ⟨_, NodeMap.find_assign_self hf⟩
    · obtain ⟨i, hi⟩ := h.entry q hq
      exact ⟨i, (NodeMap.find_assign_ne hf (hnew q hq)).trans hi⟩
  · rcases hmem q hq with rfl | hq
    · exact h0
    · exact h.offset q hq
  · have hperm : (c.send r).pending.Perm (r :: c.pending) := by
      simp only [Channel.pending, Channel.send, List.append_assoc, List.singleton_append]
      exact List.perm_middle
    rw [(hperm.map Send.data).nodup_iff, List.map_cons, List.nodup_cons]
    refine ⟨fun hr => ?_, h.pointers⟩
    obtain ⟨q, hq, he⟩ := List.mem_map.1 hr
    exact hnew q hq he
  · obtain ⟨n, hn, hid⟩ := h.items p hp
    have hp' : p.2 ∈ c.pending := List.mem_append_right _ (List.mem_map_of_mem hp)
    exact ⟨n, (NodeMap.find_assign_ne hf (hnew _ hp')).trans hn, hid⟩

/-- A completion calls the send's own callback. -/
theorem complete_eq {i : Nat} {r : Send} (h : ChannelInv W kind c) (hr : c.inFlight[i]? = some r) :
    ∃ item, c.complete W kind i = some ({ c with
      inFlight := c.inFlight.eraseIdx i
      calling := (item, r) :: c.calling
      completed := c.completed ++ [(r, some (r.call W kind))] }, true) ∧
      ∃ n, c.map.find r.data = some n ∧ n.id = item := by
  have hmem : r ∈ c.pending := List.mem_append_left _ (List.mem_of_getElem? hr)
  obtain ⟨item, hi⟩ := h.entry r hmem
  refine ⟨item, ?_, _, hi, rfl⟩
  unfold Channel.complete
  rw [hr, Option.map_some]
  simp only [freeFunc_entry hi (h.offset r hmem)]

/-- The sends in flight are the one at `i` and the others. -/
theorem inFlight_perm {i : Nat} {r : Send} (hr : c.inFlight[i]? = some r) :
    (r :: c.inFlight.eraseIdx i).Perm c.inFlight := by
  obtain ⟨hi, rfl⟩ := List.getElem?_eq_some_iff.1 hr
  exact List.getElem_cons_eraseIdx_perm hi

theorem channelInv_complete {i : Nat} {b : Bool} (h : ChannelInv W kind c)
    (ht : c.complete W kind i = some (c', b)) : ChannelInv W kind c' := by
  obtain ⟨r, hr, -⟩ := Option.map_eq_some_iff.1 ht
  obtain ⟨item, heq, hitem⟩ := complete_eq h hr
  rw [heq] at ht
  obtain ⟨rfl, -⟩ := Prod.mk.inj (Option.some.inj ht)
  -- the send only moves from the sends in flight to the running callbacks
  have hperm : (Channel.pending { c with
      inFlight := c.inFlight.eraseIdx i
      calling := (item, r) :: c.calling
      completed := c.completed ++ [(r, some (r.call W kind))] }).Perm c.pending := by
    simp only [Channel.pending, List.map_cons]
    refine List.perm_middle.trans ?_
    rw [← List.cons_append]
    exact (inFlight_perm hr).append_right _
  refine ⟨fun q hq => h.entry q (hperm.mem_iff.1 hq), fun q hq => h.offset q (hperm.mem_iff.1 hq),
    (hperm.map _).nodup_iff.2 h.pointers, fun p hp => ?_, ⟨fun p hp => ?_, h.own.defined⟩⟩
  · rcases List.mem_cons.1 hp with rfl | hp
    · exact hitem
    · exact h.items p hp
  · rcases List.mem_append.1 hp with hp | hp
    · exact h.own.completed p hp
    · rw [List.mem_singleton.1 hp]

theorem channelInv_finish (h : ChannelInv W kind c) (ht : c.finish = some c') : ChannelInv W kind c' := by
  unfold Channel.finish at ht
  cases hc : c.calling with
  | nil =>
    rw [hc] at ht
    cases ht
  | cons p calling =>
    obtain ⟨item, r⟩ := p
    obtain ⟨n, hn, rfl⟩ := h.items (item, r) (by rw [hc]; exact List.mem_cons_self)
    obtain ⟨map, herase, hother⟩ := NodeMap.erase_of_find hn
    rw [hc] at ht
    simp only [herase, Option.some.injEq] at ht
    subst ht
    have hperm : c.pending.Perm (r :: (c.inFlight ++ calling.map Prod.snd)) := by
      rw [Channel.pending, hc, List.map_cons]
      exact List.perm_middle
    have hnd := (hperm.map Send.data).nodup_iff.1 h.pointers
    rw [List.map_cons, List.nodup_cons] at hnd
    have hne : ∀ q ∈ c.inFlight ++ calling.map Prod.snd, q.data ≠ r.data := fun q hq he =>
      hnd.1 (he ▸ List.mem_map_of_mem hq)
    have hold : ∀ q ∈ c.inFlight ++ calling.map Prod.snd, q ∈ c.pending := fun q hq =>
      hperm.mem_iff.2 (List.mem_cons_of_mem _ hq)
    refine ⟨fun q hq => ?_, fun q hq => h.offset q (hold q hq), hnd.2, fun p hp => ?_,
      ⟨h.own.completed, h.own.defined⟩⟩
    · obtain ⟨i, hi⟩ := h.entry q (hold q hq)
      exact ⟨i, (hother _ (hne q hq)).trans hi⟩
    · obtain ⟨k, hk, hid⟩ := h.items p (by rw [hc]; exact List.mem_cons_of_mem _ hp)
      exact ⟨k, (hother _ (hne _ (List.mem_append_right _ (List.mem_map_of_mem hp)))).trans hk, hid⟩

/-! ## Both kinds -/

def ChreInv (W : Wamr) (s : ChreState) : Prop := ∀ kind, ChannelInv W kind (s.channel kind)

theorem chreInv_start : ChreInv W ChreState.start := fun kind => by
  cases kind <;> exact channelInv_start

theorem chreInv_step {s t : ChreState} {a : ChreAction} (h : ChreInv W s) (hok : FreshPointer s a)
    (ht : chreStep W s a = some t) : ChreInv W t := by
  cases a with
  | send kind r =>
    cases ht
    exact forall_setChannel h (channelInv_send (h kind) hok.1 (Option.isNone_iff_eq_none.1 hok.2))
  | complete kind i =>
    obtain ⟨c, b, hc, hchannel⟩ := chreStep_complete ht
    unfold ChreInv
    rw [hchannel]
    exact forall_setChannel h (channelInv_complete (h kind) hc)
  | finish =>
    obtain ⟨kind, p, calling, c, -, -, hc, hchannel⟩ := chreStep_finish ht
    unfold ChreInv
    rw [hchannel]
    exact forall_setChannel h (channelInv_finish (h kind) hc)

/-- In a run whose sends all have a callback and a pointer that is not in the map of their kind, every
completion calls the callback of its own send, in its env. -/
theorem ownCallbacks_of_fresh {s : ChreState} {as : List ChreAction}
    (hm : Meets (chreStep W) FreshPointer ChreState.start as)
    (h : exec (chreStep W) ChreState.start as = some s) : OwnCallbacks W s := fun kind =>
  (exec_invariant (fun _ _ _ hi hok ht => chreInv_step hi hok ht) chreInv_start hm h kind).own

def chreWamr : Wamr := .linear id fun _ => 0x1000

/-- An event whose callback sends a message, and the event's pointer again once it is released. -/
def releasedPointer : List ChreAction :=
  [.send .event ⟨1, 0x2000, 5, 3⟩, .complete .event 0, .send .message ⟨1, 0x2000, 7, 16⟩, .complete .message 0,
    .finish, .finish, .send .event ⟨2, 0x2000, 9, 4⟩, .complete .event 0, .finish]

theorem ownCallbacks_releasedPointer :
    ∃ s, exec (chreStep chreWamr) ChreState.start releasedPointer = some s ∧ OwnCallbacks chreWamr s := by
  have hm : Meets (chreStep chreWamr) FreshPointer ChreState.start releasedPointer := by decide
  exact ⟨_, rfl, ownCallbacks_of_fresh hm rfl⟩

/-- Two events in flight with the same pointer. -/
def sharedPointer : List ChreAction :=
  [.send .event ⟨1, 0x2000, 5, 3⟩, .send .event ⟨1, 0x2000, 7, 3⟩, .complete .event 0]

/-- The completion of the first event calls the callback of the second. -/
theorem first_event_misdirected :
    ¬ ∀ (W : Wamr) (as : List ChreAction) (s : ChreState), (∀ kind r, ChreAction.send kind r ∈ as → r.funcOffset ≠ 0) →
      exec (chreStep W) ChreState.start as = some s → OwnCallbacks W s := by
  intro h
  have hoff : ∀ kind r, ChreAction.send kind r ∈ sharedPointer → r.funcOffset ≠ 0 := by
    intro kind r hr
    simp only [sharedPointer, List.mem_cons, ChreAction.send.injEq, reduceCtorEq, List.not_mem_nil, or_false] at hr
    rcases hr with ⟨-, rfl⟩ | ⟨-, rfl⟩ <;> decide
  have hown := (h chreWamr sharedPointer _ hoff rfl .event).completed
    (⟨1, 0x2000, 5, 3⟩, some ⟨1, 7, [3, 0x1000]⟩) (by decide)
  exact absurd hown (by decide)

end VelaWasm.Chre
