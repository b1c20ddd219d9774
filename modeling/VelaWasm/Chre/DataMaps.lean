/-
The keys of `eventDataMap` and `messageDataMap`. A send puts its data pointer into the map of its kind whatever
its callback, and the free functions erase it only after a call: the entry of a send without a callback
stays. While callbacks are running the same node may be erased twice.
-/
import VelaWasm.Chre.Completion

namespace VelaWasm.Chre

open VelaWasm.Run

variable {W : Wamr} {kind : SendKind} {c c' : Channel} {s t : ChreState}

/-! ## The property -/

/-- Each key of the map is the pointer of a send whose completion has not returned, and no invalid iterator
was erased. -/
structure Channel.Tracked (c : Channel) : Prop where
  keys : ∀ n ∈ c.map.nodes, ∃ r ∈ c.pending, r.data = n.key
  defined : c.undefined = false

/-- No key is left in either map that has nothing in flight. -/
def MapsTracked (s : ChreState) : Prop := ∀ kind, (s.channel kind).Tracked

theorem Channel.Tracked.empty (h : c.Tracked) (hnone : c.pending = []) : c.map.nodes = [] := by
  refine List.eq_nil_iff_forall_not_mem.2 fun n hn => ?_
  obtain ⟨r, hr, -⟩ := h.keys n hn
  rw [hnone] at hr
  cases hr

/-- The sends that are pending when the one at `i` is no longer. -/
def Channel.others (c : Channel) (i : Nat) : List Send := c.inFlight.eraseIdx i ++ c.calling.map Prod.snd

/-- The entry found by a completion has a callback, or else another pending send has the pointer; the node
of a callback that returns is still in the map. -/
def ErasesEntry (s : ChreState) : ChreAction → Prop
  | .send .. => True
  | .complete kind i =>
    let c := s.channel kind
    ∀ r ∈ c.inFlight[i]?, ∀ n ∈ c.map.find r.data, n.val.originFuncOffset = 0 → ∃ q ∈ c.others i, q.data = r.data
  | .finish =>
    ∀ kind ∈ s.stack.head?, ∀ p ∈ (s.channel kind).calling.head?, ∃ n ∈ (s.channel kind).map.nodes, n.id = p.1

instance (s : ChreState) : DecidablePred (ErasesEntry s)
  | .send .. => isTrue trivial
  | .complete kind i => by
    have hentry (r : Send) : Decidable (∀ n ∈ (s.channel kind).map.find r.data, n.val.originFuncOffset = 0 →
        ∃ q ∈ (s.channel kind).others i, q.data = r.data) := Option.decidableForallMem _
    exact Option.decidableForallMem _
  | .finish => by
    have hnode (kind : SendKind) : Decidable (∀ p ∈ (s.channel kind).calling.head?,
        ∃ n ∈ (s.channel kind).map.nodes, n.id = p.1) := Option.decidableForallMem _
    exact Option.decidableForallMem _

/-! ## The invariant -/

/-- The keys are tracked, and the node that a running callback will erase has its send's key. -/
structure Channel.Kept (c : Channel) : Prop where
  tracked : c.Tracked
  items : ∀ p ∈ c.calling, p.1 < c.map.next ∧ ∀ n ∈ c.map.nodes, n.id = p.1 → n.key = p.2.data

theorem kept_start : Channel.start.Kept :=
  ⟨⟨fun _ h => (by cases h), rfl⟩, fun _ h => (by cases h)⟩

theorem kept_send {r : Send} (h : c.Kept) : (c.send r).Kept := by
  have hpending : ∀ q, q = r ∨ q ∈ c.pending → q ∈ (c.send r).pending := by
    intro q hq
    simp only [Channel.pending, Channel.send, List.mem_append, List.mem_singleton] at hq ⊢
    tauto
  refine ⟨⟨fun n hn => ?_, h.tracked.defined⟩, fun p hp => ?_⟩
  · rcases NodeMap.of_mem_assign hn with ⟨hk, -⟩ | ⟨n', hn', -, hk⟩
    · exact ⟨r, hpending r (.inl rfl), hk.symm⟩
    · obtain ⟨q, hq, hd⟩ := h.tracked.keys n' hn'
      exact ⟨q, hpending q (.inr hq), hd.trans hk⟩
  · obtain ⟨hlt, hkey⟩ := h.items p hp
    refine ⟨Nat.lt_of_lt_of_le hlt NodeMap.next_le_assign, fun n hn hid => ?_⟩
    rcases NodeMap.of_mem_assign hn with ⟨-, hnew⟩ | ⟨n', hn', hid', hk⟩
    · omega
    · exact hk ▸ hkey n' hn' (hid'.trans hid)

/-- The pending sends are the one at `i` and the others. -/
theorem pending_perm {i : Nat} {r : Send} (hr : c.inFlight[i]? = some r) : (r :: c.others i).Perm c.pending :=
  (inFlight_perm hr).append_right _

/-- What a completion does: it returns at once, or a callback of the node found is running. -/
theorem complete_cases {i : Nat} {b : Bool} (h : c.complete W kind i = some (c', b)) :
    ∃ r, c.inFlight[i]? = some r ∧
      ((∀ n ∈ c.map.find r.data, n.val.originFuncOffset = 0) ∧ c'.pending = c.others i ∧ c'.calling = c.calling ∨
        ∃ n, c.map.find r.data = some n ∧ n.val.originFuncOffset ≠ 0 ∧
          c'.pending.Perm (r :: c.others i) ∧ c'.calling = (n.id, r) :: c.calling) ∧
      c'.map = c.map ∧ c'.undefined = c.undefined := by
  obtain ⟨r, hr, h⟩ := Option.map_eq_some_iff.1 h
  refine ⟨r, hr, ?_⟩
  unfold freeFunc at h
  cases hf : c.map.find r.data with
  | none =>
    simp only [hf] at h
    cases h
    exact ⟨.inl ⟨fun n hn => (by cases hn), rfl, rfl⟩, rfl, rfl⟩
  | some n =>
    simp only [hf] at h
    by_cases h0 : n.val.originFuncOffset = 0
    · rw [if_pos h0] at h
      cases h
      refine ⟨.inl ⟨fun n' hn' => ?_, rfl, rfl⟩, rfl, rfl⟩
      cases hn'
      exact h0
    · rw [if_neg h0] at h
      cases h
      exact ⟨.inr ⟨n, rfl, h0, List.perm_middle, rfl⟩, rfl, rfl⟩

theorem kept_complete {i : Nat} {b : Bool} (h : c.Kept) (ht : c.complete W kind i = some (c', b))
    (hok : ∀ r ∈ c.inFlight[i]?, ∀ n ∈ c.map.find r.data, n.val.originFuncOffset = 0 →
      ∃ q ∈ c.others i, q.data = r.data) : c'.Kept := by
  obtain ⟨r, hr, hcase, hmap, hundefined⟩ := complete_cases ht
  have hperm := pending_perm hr
  rcases hcase with ⟨hzero, hpending, hcalling⟩ | ⟨n, hn, -, hpending, hcalling⟩
  · refine ⟨⟨fun n hn => ?_, hundefined.trans h.tracked.defined⟩, fun p hp => ?_⟩
    · rw [hmap] at hn
      rw [hpending]
      obtain ⟨q, hq, hd⟩ := h.tracked.keys n hn
      rcases List.mem_cons.1 (hperm.mem_iff.2 hq) with rfl | hq
      · have hfind : c.map.find q.data = some n := NodeMap.find_eq_some.2 ⟨hn, hd.symm⟩
        obtain ⟨q', hq', hd'⟩ := hok q hr n hfind (hzero n hfind)
        exact ⟨q', hq', hd'.trans hd⟩
      · exact ⟨q, hq, hd⟩
    · rw [hmap]
      exact h.items p (hcalling ▸ hp)
  · refine ⟨⟨fun n hn => ?_, hundefined.trans h.tracked.defined⟩, fun p hp => ?_⟩
    · obtain ⟨q, hq, hd⟩ := h.tracked.keys n (hmap ▸ hn)
      exact ⟨q, hpending.mem_iff.2 (hperm.mem_iff.2 hq), hd⟩
    · rw [hmap]
      rw [hcalling] at hp
      obtain ⟨hmem, hkey⟩ := NodeMap.find_eq_some.1 hn
      rcases List.mem_cons.1 hp with rfl | hp
      · refine ⟨c.map.fresh n hmem, fun n' hn' hid => ?_⟩
        rw [List.inj_on_of_nodup_map c.map.ids hn' hmem hid]
        exact hkey
      · exact h.items p hp

theorem kept_finish {p : Nat × Send} {calling : List (Nat × Send)} (h : c.Kept) (hcalling : c.calling = p :: calling)
    (ht : c.finish = some c') (hok : ∃ n ∈ c.map.nodes, n.id = p.1) : c'.Kept := by
  obtain ⟨item, r⟩ := p
  obtain ⟨n, hn, hid⟩ := hok
  unfold Channel.finish at ht
  rw [hcalling] at ht
  cases he : c.map.erase item with
  | none => exact absurd hid (NodeMap.erase_eq_none.1 he n hn)
  | some map =>
    simp only [he, Option.some.injEq] at ht
    subst ht
    obtain ⟨hnext, hmem⟩ := NodeMap.of_erase he
    have hkey := (h.items (item, r) (by rw [hcalling]; exact List.mem_cons_self)).2 n hn hid
    refine ⟨⟨fun n' hn' => ?_, h.tracked.defined⟩, fun p hp => ?_⟩
    · obtain ⟨hold, hne⟩ := (hmem n').1 hn'
      obtain ⟨q, hq, hd⟩ := h.tracked.keys n' hold
      refine ⟨q, ?_, hd⟩
      -- only the node erased has the key of the send whose callback returns
      have hqr : q ≠ r := by
        rintro rfl
        have hnn : n' = n := List.inj_on_of_nodup_map c.map.keys hold hn (hd.symm.trans hkey.symm)
        exact hne (hnn ▸ hid)
      simp only [Channel.pending, hcalling, List.map_cons, List.mem_append, List.mem_cons] at hq ⊢
      tauto
    · obtain ⟨hlt, hkeys⟩ := h.items p (by rw [hcalling]; exact List.mem_cons_of_mem _ hp)
      exact ⟨hnext ▸ hlt, fun n' hn' => hkeys n' ((hmem n').1 hn').1⟩

/-! ## Both kinds -/

theorem kept_step {a : ChreAction} (h : ∀ kind, (s.channel kind).Kept) (hok : ErasesEntry s a)
    (ht : chreStep W s a = some t) : ∀ kind, (t.channel kind).Kept := by
  cases a with
  | send kind r =>
    cases ht
    exact forall_setChannel h (kept_send (h kind))
  | complete kind i =>
    obtain ⟨c, b, hc, hchannel⟩ := chreStep_complete ht
    rw [hchannel]
    exact forall_setChannel h (kept_complete (h kind) hc hok)
  | finish =>
    obtain ⟨kind, p, calling, c, hstack, hcalling, hc, hchannel⟩ := chreStep_finish ht
    rw [hchannel]
    exact forall_setChannel h (kept_finish (h kind) hcalling hc (hok kind hstack p (by rw [hcalling]; rfl)))

/-- A completion that leaves the last entry of its pointer leaves a key without a send, and a second erasure
of a node is undefined. -/
theorem not_tracked_step {a : ChreAction} (hok : ¬ ErasesEntry s a) (ht : chreStep W s a = some t) :
    ¬ MapsTracked t := by
  intro htracked
  cases a with
  | send => exact hok trivial
  | complete kind i =>
    obtain ⟨c, b, hc, hchannel⟩ := chreStep_complete ht
    obtain ⟨r, hr, hcase, hmap, -⟩ := complete_cases hc
    refine hok fun r' hr' n hn h0 => ?_
    cases hr.symm.trans hr'
    rcases hcase with ⟨-, hpending, -⟩ | ⟨n', hn', hne, -⟩
    · have hkind := htracked kind
      rw [hchannel, channel_setChannel_self] at hkind
      obtain ⟨hmem, hkey⟩ := NodeMap.find_eq_some.1 hn
      obtain ⟨q, hq, hd⟩ := hkind.keys n (hmap ▸ hmem)
      exact ⟨q, hpending ▸ hq, hd.trans hkey⟩
    · cases hn'.symm.trans hn
      exact absurd h0 hne
  | finish =>
    obtain ⟨kind, p, calling, c, hstack, hcalling, hc, hchannel⟩ := chreStep_finish ht
    refine hok fun kind' hkind' p' hp' => ?_
    cases hstack.symm.trans hkind'
    rw [hcalling] at hp'
    cases hp'
    have hkind := (htracked kind).defined
    rw [hchannel, channel_setChannel_self] at hkind
    by_contra hno
    have herase : (s.channel kind).map.erase p.1 = none :=
      NodeMap.erase_eq_none.2 fun n hn hid => hno ⟨n, hn, hid⟩
    unfold Channel.finish at hc
    rw [hcalling] at hc
    simp only [herase] at hc
    cases hc
    cases hkind

/-- The maps are tracked all along a run exactly when each of its steps meets the condition. -/
theorem mapsTracked_iff {as : List ChreAction} (h : exec (chreStep W) .start as = some s) :
    Along (chreStep W) MapsTracked .start as ↔ Meets (chreStep W) ErasesEntry .start as := by
  refine along_iff_meets (I := fun s => ∀ kind, (s.channel kind).Kept) (fun s hk kind => (hk kind).tracked)
    (fun _ _ _ hk hok ht => kept_step hk hok ht) (fun _ _ _ _ hok ht => not_tracked_step hok ht) (fun kind => ?_) h
  cases kind <;> exact kept_start

/-- Two events with the same pointer, the first without a callback, and a message sent from the callback. -/
def sharedEntry : List ChreAction :=
  [.send .event ⟨1, 0x2000, 0, 3⟩, .send .event ⟨1, 0x2000, 7, 3⟩, .complete .event 1,
    .send .message ⟨1, 0x2000, 9, 16⟩, .finish, .complete .message 0, .finish, .complete .event 0]

theorem mapsTracked_sharedEntry : Along (chreStep chreWamr) MapsTracked .start sharedEntry := by
  have hm : Meets (chreStep chreWamr) ErasesEntry .start sharedEntry := by decide
  exact (mapsTracked_iff rfl).2 hm

/-- An event without a callback. -/
def noCallback : List ChreAction := [.send .event ⟨1, 0x2000, 0, 3⟩, .complete .event 0]

/-- Nothing is in flight, and the pointer is still a key. -/
theorem noCallback_not_tracked :
    ¬ ∀ (W : Wamr) (as : List ChreAction) (s : ChreState), exec (chreStep W) .start as = some s → MapsTracked s := by
  intro h
  have hempty := (h chreWamr noCallback _ rfl .event).empty rfl
  exact absurd hempty (by decide)

end VelaWasm.Chre
