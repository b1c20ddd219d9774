/-
Tables of slots scanned from the first one on: a slot whose key is `null` is free, a search stops
at the first slot with the key it looks for, and a record is written into the first free slot.
`Recorded` says that every live registration stands in the slot it was written to, `Found` that a
search for its key ends there, and `Kept` is the two together. A table stays `Kept` exactly when a
record is written under the condition `Fresh`, and whenever the slot of a registration that is
dropped is cleared.
-/
import Mathlib.Data.List.Nodup
import Mathlib.Tactic.Common
import VelaWasm.Lib.ListSet

namespace VelaWasm.SlotTable

variable {E K R : Type*} [DecidableEq K] (key : E → K) (null : K)

/-! ## Definitions -/

/-- The index of the first slot whose key is `k`. -/
def find (k : K) (t : List E) : Option Nat := t.findIdx? fun e => decide (key e = k)

/-- Write `e` into the first free slot: the table afterwards and the slot, if there is one. -/
def fill (t : List E) (e : E) : List E × Option Nat :=
  match find key null t with
  | none => (t, none)
  | some i => (t.set i e, some i)

section

variable (slot : R → Option Nat) (entry : R → E) (t : List E) (live : List R)

/-- Every live registration `r` stands in its own slot `slot r`, which holds the record `entry r`
and is not free. -/
structure Recorded : Prop where
  at_slot : ∀ r ∈ live, ∃ i, slot r = some i ∧ t[i]? = some (entry r)
  key_ne : ∀ r ∈ live, key (entry r) ≠ null
  nodup : (live.map slot).Nodup

/-- A search for the key of a live registration ends in its slot. -/
def Found : Prop := ∀ r ∈ live, find key (key (entry r)) t = slot r

structure Kept : Prop where
  recorded : Recorded key null slot entry t live
  found : Found key slot entry t live

/-- A record in slot `i` comes after every live registration that has its key. -/
def Behind (e : E) (i : Nat) : Prop := ∀ q ∈ live, key (entry q) = key e → ∀ j ∈ slot q, j < i

/-- The record `e` goes to a slot behind the live registrations with its key. It is accepted only
if it is written, and no earlier slot has its key. -/
def Fresh (e : E) (accepted : Bool) : Prop :=
  (find key null t = none → accepted = false) ∧
    ∀ i ∈ find key null t, Behind key slot entry live e i ∧ (accepted = true → ∀ f ∈ t.take i, key f ≠ key e)

instance (e : E) (i : Nat) : Decidable (Behind key slot entry live e i) :=
  inferInstanceAs (Decidable (∀ q ∈ live, _ → ∀ j ∈ slot q, _))

instance (e : E) (accepted : Bool) : Decidable (Fresh key null slot entry t live e accepted) :=
  inferInstanceAs (Decidable (_ ∧ ∀ i ∈ find key null t, _))

end

/-! ## Searching -/

variable {key null} {t : List E}

theorem find_eq_some {k : K} {i : Nat} :
    find key k t = some i ↔ ∃ e, t[i]? = some e ∧ key e = k ∧ ∀ f ∈ t.take i, key f ≠ k := by
  simp only [find, List.findIdx?_eq_some_iff_getElem, decide_eq_true_eq]
  constructor
  · rintro ⟨hi, hk, hlt⟩
    refine ⟨t[i], List.getElem?_eq_getElem hi, hk, fun f hf => ?_⟩
    obtain ⟨j, hj, rfl⟩ := List.getElem_of_mem hf
    rw [List.length_take] at hj
    rw [List.getElem_take]
    exact hlt j (by omega)
  · rintro ⟨e, he, hk, hlt⟩
    obtain ⟨hi, rfl⟩ := List.getElem?_eq_some_iff.1 he
    refine ⟨hi, hk, fun j hj => hlt _ ?_⟩
    exact List.mem_take_iff_getElem.2 ⟨j, by omega, rfl⟩

theorem find_eq_none {k : K} : find key k t = none ↔ ∀ e ∈ t, key e ≠ k := by
  simp [find, List.findIdx?_eq_none_iff]

/-- A search for the key of a record just written. -/
theorem find_set_self {i : Nat} {e : E} (hi : i < t.length) :
    find key (key e) (t.set i e) = some i ↔ ∀ f ∈ t.take i, key f ≠ key e := by
  have htake : (t.set i e).take i = t.take i := List.take_set_of_le (Nat.le_refl i)
  rw [find_eq_some, htake, List.getElem?_set_self hi]
  constructor
  · rintro ⟨f, -, -, h⟩
    exact h
  · intro h
    exact ⟨e, rfl, rfl, h⟩

/-- A search that ended in another slot still does, unless the record is written before that slot
under the key it looks for. -/
theorem find_set_ne {k : K} {i m : Nat} {e : E} (h : find key k t = some m) (hne : m ≠ i) :
    find key k (t.set i e) = some m ↔ (key e = k → m < i) := by
  obtain ⟨f, hf, hk, hlt⟩ := find_eq_some.1 h
  have hm : m < t.length := (List.getElem?_eq_some_iff.1 hf).1
  rw [find_eq_some, List.getElem?_set_ne (Ne.symm hne)]
  constructor
  · rintro ⟨-, -, -, hall⟩ he
    by_contra hge
    have him : i < m := by omega
    refine hall e ?_ he
    rw [List.take_set]
    exact List.mem_set (by rw [List.length_take]; omega) e
  · intro himp
    refine ⟨f, hf, hk, fun g hg => ?_⟩
    by_cases him : i < m
    · rw [List.take_set] at hg
      rcases List.mem_or_eq_of_mem_set hg with hg | rfl
      · exact hlt g hg
      · exact fun hgk => absurd (himp hgk) (by omega)
    · rw [List.take_set_of_le (by omega)] at hg
      exact hlt g hg

/-- Writing a record with the key the slot already has changes no search. -/
theorem find_set_same {k : K} {i : Nat} {e f : E} (he : t[i]? = some f) (hk : key e = key f) :
    find key k (t.set i e) = find key k t := by
  have hmap : ∀ l : List E, find key k l = (l.map key).findIdx? fun x => decide (x = k) := fun l => by
    rw [find, List.findIdx?_map]
    rfl
  obtain ⟨hi, rfl⟩ := List.getElem?_eq_some_iff.1 he
  have hlt : i < (t.map key).length := by rwa [List.length_map]
  have hsame : key e = (t.map key)[i] := by rw [List.getElem_map, hk]
  rw [hmap, hmap, List.map_set, hsame, List.set_getElem_self hlt]

/-! ## Live registrations -/

variable {slot : R → Option Nat} {entry : R → E} {live live' : List R}

omit [DecidableEq K] in
theorem recorded_nil (t : List E) : Recorded key null slot entry t [] :=
  ⟨by simp, by simp, List.nodup_nil⟩

omit [DecidableEq K] in
/-- No live registration stands in a free slot. -/
theorem Recorded.slot_ne_of_null (h : Recorded key null slot entry t live) {i : Nat} {f : E}
    (hf : t[i]? = some f) (hfree : key f = null) : ∀ q ∈ live, slot q ≠ some i := by
  intro q hq hqi
  obtain ⟨j, hj, hq'⟩ := h.at_slot q hq
  rw [hqi] at hj
  cases hj
  rw [hf] at hq'
  cases hq'
  exact h.key_ne q hq hfree

theorem Recorded.slot_ne_free (h : Recorded key null slot entry t live) {i : Nat}
    (hi : find key null t = some i) : ∀ q ∈ live, slot q ≠ some i := by
  obtain ⟨f, hf, hfree, -⟩ := find_eq_some.1 hi
  exact h.slot_ne_of_null hf hfree

omit [DecidableEq K] in
/-- Writing a slot that no live registration stands in. -/
theorem Recorded.set_other (h : Recorded key null slot entry t live) {i : Nat} (e : E)
    (hi : ∀ q ∈ live, slot q ≠ some i) : Recorded key null slot entry (t.set i e) live := by
  refine ⟨fun q hq => ?_, h.key_ne, h.nodup⟩
  obtain ⟨j, hj, hq'⟩ := h.at_slot q hq
  have hne : i ≠ j := fun hij => hi q hq (hij ▸ hj)
  exact ⟨j, hj, by rw [List.getElem?_set_ne hne]; exact hq'⟩

omit [DecidableEq K] in
/-- Writing a registration's record into a free slot. -/
theorem Recorded.alloc (h : Recorded key null slot entry t live) {i : Nat} {f : E} (hf : t[i]? = some f)
    (hfree : key f = null) {r : R} (hslot : slot r = some i) (hkey : key (entry r) ≠ null) :
    Recorded key null slot entry (t.set i (entry r)) (live ++ [r]) := by
  have hlt : i < t.length := (List.getElem?_eq_some_iff.1 hf).1
  have hother := h.slot_ne_of_null hf hfree
  have hset := h.set_other (entry r) hother
  refine ⟨fun q hq => ?_, fun q hq => ?_, ?_⟩
  · rcases List.mem_append.1 hq with hq | hq
    · exact hset.at_slot q hq
    · rw [List.mem_singleton] at hq
      subst hq
      exact ⟨i, hslot, List.getElem?_set_self hlt⟩
  · rcases List.mem_append.1 hq with hq | hq
    · exact h.key_ne q hq
    · rw [List.mem_singleton] at hq
      subst hq
      exact hkey
  · rw [List.map_append, List.map_singleton, hslot]
    refine List.nodup_append.2 ⟨h.nodup, List.nodup_singleton _, fun a ha b hb => ?_⟩
    obtain ⟨q, hq, rfl⟩ := List.mem_map.1 ha
    rw [List.mem_singleton] at hb
    subst hb
    exact hother q hq

omit [DecidableEq K] in
theorem Recorded.sublist (h : Recorded key null slot entry t live) (hs : live'.Sublist live) :
    Recorded key null slot entry t live' :=
  ⟨fun q hq => h.at_slot q (hs.subset hq), fun q hq => h.key_ne q (hs.subset hq),
    (hs.map slot).nodup h.nodup⟩

omit [DecidableEq K] in
/-- Registrations in the same slot are the same, so one that is dropped is no longer live. -/
theorem Recorded.not_mem_eraseIdx (h : Recorded key null slot entry t live) {k : Nat} {r : R}
    (hr : live[k]? = some r) : r ∉ live.eraseIdx k := by
  classical
  have hnd : live.Nodup := List.Nodup.of_map _ h.nodup
  obtain ⟨hk, rfl⟩ := List.getElem?_eq_some_iff.1 hr
  rw [← hnd.erase_getElem]
  exact hnd.not_mem_erase

omit [DecidableEq K] in
/-- No other registration stands in the slot of one that is no longer live. -/
theorem Recorded.slot_ne_dropped (h : Recorded key null slot entry t live) (hs : live'.Sublist live) {r : R}
    (hr : r ∈ live) (hr' : r ∉ live') {i : Nat} (hi : slot r = some i) : ∀ q ∈ live', slot q ≠ some i := by
  intro q hq hqi
  have hqr : q = r := List.inj_on_of_nodup_map h.nodup (hs.subset hq) hr (hqi.trans hi.symm)
  exact hr' (hqr ▸ hq)

variable {K' : Type*} [DecidableEq K'] {key' : E → K'}

omit [DecidableEq K] in
/-- Writing a slot that `q` does not stand in leaves the search for `q` where it was exactly when the
record comes behind `q` or has another key. -/
theorem Recorded.find_set_iff (h : Recorded key null slot entry t live) {q : R} (hq : q ∈ live)
    (hf : find key' (key' (entry q)) t = slot q) {i : Nat} (e : E) (hi : slot q ≠ some i) :
    find key' (key' (entry q)) (t.set i e) = slot q ↔ (key' (entry q) = key' e → ∀ j ∈ slot q, j < i) := by
  obtain ⟨m, hm, -⟩ := h.at_slot q hq
  have hne : m ≠ i := fun hmi => hi (hmi ▸ hm)
  rw [hm] at hf ⊢
  rw [find_set_ne hf hne]
  constructor
  · rintro himp hk j ⟨⟩
    exact himp hk.symm
  · intro himp hk
    exact himp hk.symm m rfl

omit [DecidableEq K] in
theorem Recorded.found_set_iff (h : Recorded key null slot entry t live)
    (hf : Found key' slot entry t live) {i : Nat} (e : E) (hi : ∀ q ∈ live, slot q ≠ some i) :
    Found key' slot entry (t.set i e) live ↔ Behind key' slot entry live e i :=
  forall_congr' fun q => forall_congr' fun hq => h.find_set_iff hq (hf q hq) e (hi q hq)

theorem Found.sublist (h : Found key slot entry t live) (hs : live'.Sublist live) :
    Found key slot entry t live' := fun q hq => h q (hs.subset hq)

omit [DecidableEq K] in
theorem Behind.sublist {e : E} {i : Nat} (h : Behind key slot entry live e i) (hs : live'.Sublist live) :
    Behind key slot entry live' e i := fun q hq => h q (hs.subset hq)

/-- What holds of the live registrations and of one that is accepted holds of all of them. -/
theorem forall_mem_accepted {P : R → Prop} (h : ∀ q ∈ live, P q) {r : R} {accepted : Bool}
    (hr : accepted = true → P r) : ∀ q ∈ if accepted then live ++ [r] else live, P q := by
  cases accepted with
  | false => exact h
  | true =>
    intro q hq
    rcases List.mem_append.1 hq with hq | hq
    · exact h q hq
    · rw [List.mem_singleton.1 hq]
      exact hr rfl

/-! ## Tables under one key -/

theorem kept_replicate (slot : R → Option Nat) (entry : R → E) (n : Nat) (e : E) :
    Kept key null slot entry (List.replicate n e) [] :=
  ⟨recorded_nil _, fun _ hr => by cases hr⟩

/-- A registration whose record is written into a free slot is found there, with the others where they
were, exactly when the slot is behind those with its key and the first that holds it. -/
theorem Kept.set_iff (h : Kept key null slot entry t live) {i : Nat} {f : E} (hf : t[i]? = some f)
    (hfree : key f = null) {r : R} (hslot : slot r = some i) (hkey : key (entry r) ≠ null) :
    Kept key null slot entry (t.set i (entry r)) (live ++ [r]) ↔
      Behind key slot entry live (entry r) i ∧ ∀ f ∈ t.take i, key f ≠ key (entry r) := by
  have hlt : i < t.length := (List.getElem?_eq_some_iff.1 hf).1
  have hset := h.recorded.found_set_iff h.found (entry r) (h.recorded.slot_ne_of_null hf hfree)
  constructor
  · rintro ⟨-, hfound⟩
    have hr := hfound r (by simp)
    rw [hslot] at hr
    exact ⟨hset.1 fun q hq => hfound q (by simp [hq]), (find_set_self hlt).1 hr⟩
  · rintro ⟨hb, hfirst⟩
    refine ⟨h.recorded.alloc hf hfree hslot hkey, fun q hq => ?_⟩
    rcases List.mem_append.1 hq with hq | hq
    · exact hset.2 hb q hq
    · rw [List.mem_singleton] at hq
      subst hq
      rw [hslot]
      exact (find_set_self hlt).2 hfirst

/-- A registration that is accepted, or refused after its record was written, keeps the table
exactly when it is `Fresh`. -/
theorem Kept.fill_iff (h : Kept key null slot entry t live) {r : R} {accepted : Bool}
    (hslot : slot r = (fill key null t (entry r)).2) (hkey : accepted = true → key (entry r) ≠ null) :
    Kept key null slot entry (fill key null t (entry r)).1 (if accepted then live ++ [r] else live) ↔
      Fresh key null slot entry t live (entry r) accepted := by
  unfold fill at hslot ⊢
  unfold Fresh
  cases hi : find key null t with
  | none =>
    rw [hi] at hslot
    cases accepted with
    | false => simpa using h
    | true =>
      -- accepted but never written
      refine iff_of_false (fun hk => ?_) (by simp)
      obtain ⟨i, hi, -⟩ := hk.recorded.at_slot r (by simp)
      rw [hslot] at hi
      cases hi
  | some i =>
    rw [hi] at hslot
    obtain ⟨f, hf, hfree, -⟩ := find_eq_some.1 hi
    simp only [Option.mem_def, Option.some.injEq, forall_eq']
    cases accepted with
    | false =>
      have hother := h.recorded.slot_ne_free hi
      have hset := h.recorded.found_set_iff h.found (entry r) hother
      constructor
      · rintro ⟨-, hfound⟩
        exact ⟨fun h => (by cases h), hset.1 hfound, fun h => (by cases h)⟩
      · rintro ⟨-, hb, -⟩
        exact ⟨h.recorded.set_other (entry r) hother, hset.2 hb⟩
    | true =>
      rw [if_pos rfl, h.set_iff hf hfree hslot (hkey rfl)]
      simp

/-- A registration that is dropped and whose slot is cleared. -/
theorem Kept.release (h : Kept key null slot entry t live) (hs : live'.Sublist live) {r : R} (hr : r ∈ live)
    (hr' : r ∉ live') {i : Nat} (hi : slot r = some i) {e : E} (he : key e = null) :
    Kept key null slot entry (t.set i e) live' := by
  have hrec := h.recorded.sublist hs
  have hother := h.recorded.slot_ne_dropped hs hr hr' hi
  refine ⟨hrec.set_other e hother, (hrec.found_set_iff (h.found.sublist hs) e hother).2 fun q hq hk => ?_⟩
  exact absurd (hk.trans he) (hrec.key_ne q hq)

/-- A registration that is written to a free slot and replaces another one, whose slot is cleared. -/
theorem Kept.replace (h : Kept key null slot entry t live) (hs : live'.Sublist live) {q : R} (hq : q ∈ live)
    (hq' : q ∉ live') {j : Nat} (hj : slot q = some j) {e : E} (he : key e = null) {i : Nat} {f : E}
    (hf : t[i]? = some f) (hfree : key f = null) {r : R} (hslot : slot r = some i) (hkey : key (entry r) ≠ null)
    (hb : Behind key slot entry live' (entry r) i) (hfirst : ∀ f ∈ (t.set j e).take i, key f ≠ key (entry r)) :
    Kept key null slot entry ((t.set i (entry r)).set j e) (live' ++ [r]) := by
  have hji : i ≠ j := fun hij => h.recorded.slot_ne_of_null hf hfree q hq (hij ▸ hj)
  rw [List.set_comm _ _ hji]
  have hf' : (t.set j e)[i]? = some f := by rw [List.getElem?_set_ne (Ne.symm hji), hf]
  exact ((h.release hs hq hq' hj he).set_iff hf' hfree hslot hkey).2 ⟨hb, hfirst⟩

/-- The slot a search by the key of a live registration ends in is its own. -/
theorem Kept.find (h : Kept key null slot entry t live) {r : R} (hr : r ∈ live) :
    ∃ i, slot r = some i ∧ t[i]? = some (entry r) ∧ SlotTable.find key (key (entry r)) t = some i := by
  obtain ⟨i, hi, he⟩ := h.recorded.at_slot r hr
  exact ⟨i, hi, he, (h.found r hr).trans hi⟩

end VelaWasm.SlotTable
