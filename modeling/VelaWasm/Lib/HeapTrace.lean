/-
Traces of an allocator's calls. A block is named by the number of the call that allocates it, so that
no two blocks have one name, and only a live block is freed: a trace that is none of this has no run.
A trace that leaves no block live has freed what it allocated, each block exactly once.
-/
import Mathlib.Data.List.Nodup
import VelaWasm.Lib.Ledger
import VelaWasm.Lib.Run

namespace VelaWasm.HeapTrace

open VelaWasm.Run

/-! ## Definitions -/

inductive HeapEvent where
  /-- the call with the number `id` -/
  | alloc (id : ℕ) (ok : Bool)
  | free (id : ℕ)
  deriving DecidableEq, Repr

/-- The live blocks, and the number of the next call. -/
structure Heap where
  live : List ℕ
  next : ℕ
  deriving DecidableEq, Repr

def Heap.start : Heap := ⟨[], 0⟩

def traceStep (h : Heap) : HeapEvent → Option Heap
  | .alloc id ok => if id = h.next then some ⟨if ok then id :: h.live else h.live, id + 1⟩ else none
  | .free id => if id ∈ h.live then some { h with live := h.live.erase id } else none

def HeapEvent.allocated : HeapEvent → Option ℕ
  | alloc id true => some id
  | _ => none

def HeapEvent.freed : HeapEvent → Option ℕ
  | free id => some id
  | _ => none

/-- The blocks that a trace allocates. -/
def allocated (t : List HeapEvent) : List ℕ := t.filterMap HeapEvent.allocated

/-- The blocks that a trace frees. -/
def freed (t : List HeapEvent) : List ℕ := t.filterMap HeapEvent.freed

/-- The trace has a run at whose end no block is live. -/
def Balanced (t : List HeapEvent) : Prop := ∃ n, exec traceStep .start t = some ⟨[], n⟩

/-! ## Steps -/

variable {h g : Heap} {ev : HeapEvent} {t : List HeapEvent} {id : ℕ}

theorem traceStep_alloc (live : List ℕ) (n : ℕ) (ok : Bool) :
    traceStep ⟨live, n⟩ (.alloc n ok) = some ⟨if ok then n :: live else live, n + 1⟩ := if_pos rfl

theorem traceStep_free {live : List ℕ} {n : ℕ} (hid : id ∈ live) :
    traceStep ⟨live, n⟩ (.free id) = some ⟨live.erase id, n⟩ := if_pos hid

/-- What a trace has allocated it has freed or is live, and every block is older than the next call. -/
structure Accounted (h : Heap) (l : Ledger ℕ) : Prop where
  holds : l.Holds h.live
  nodup : l.acquired.Nodup
  below : ∀ id ∈ l.acquired, id < h.next

theorem accounted_step {l : Ledger ℕ} (ha : Accounted h l) (hs : traceStep h ev = some g) :
    Accounted g (l.record ev.allocated.toList ev.freed.toList) := by
  cases ev with
  | alloc id ok =>
    obtain ⟨hid, hs⟩ := Option.ite_none_right_eq_some.1 hs
    cases hs
    cases ok with
    | false => exact ⟨ha.holds, ha.nodup, fun i hi => Nat.lt_succ_of_lt (hid ▸ ha.below i hi)⟩
    | true =>
      refine ⟨ha.holds.record (.refl _), List.nodup_cons.2 ⟨fun hmem => ?_, ha.nodup⟩, fun i hi => ?_⟩
      · exact absurd (ha.below id hmem) (hid ▸ Nat.lt_irrefl id)
      · rcases List.mem_cons.1 hi with rfl | hi
        · exact Nat.lt_succ_self i
        · exact Nat.lt_succ_of_lt (hid ▸ ha.below i hi)
  | free id =>
    obtain ⟨hid, hs⟩ := Option.ite_none_right_eq_some.1 hs
    cases hs
    exact ⟨ha.holds.record (List.perm_cons_erase hid), ha.nodup, ha.below⟩

/-! ## Runs -/

theorem accounted_run {l : Ledger ℕ} (ha : Accounted h l) (hr : exec traceStep h t = some g) :
    ∃ l' : Ledger ℕ, Accounted g l' ∧ l'.acquired = (allocated t).reverse ++ l.acquired ∧
      l'.released = (freed t).reverse ++ l.released := by
  induction t generalizing h l with
  | nil =>
    cases hr
    exact ⟨l, ha, rfl, rfl⟩
  | cons ev t ih =>
    obtain ⟨h', hs, hr⟩ := exec_cons_some _ hr
    obtain ⟨l', ha', hacq, hrel⟩ := ih (accounted_step ha hs) hr
    refine ⟨l', ha', hacq.trans ?_, hrel.trans ?_⟩
    · cases hev : ev.allocated <;> simp [allocated, Ledger.record, hev]
    · cases hev : ev.freed <;> simp [freed, Ledger.record, hev]

/-- A balanced trace frees each block that it allocates exactly once, and frees nothing else. -/
theorem Balanced.freed_once (hb : Balanced t) :
    (∀ id ∈ allocated t, (freed t).count id = 1) ∧ ∀ id ∈ freed t, id ∈ allocated t := by
  obtain ⟨n, hr⟩ := hb
  have hstart : Accounted Heap.start .empty := ⟨Ledger.holds_empty, List.nodup_nil, fun _ hid => (by cases hid)⟩
  obtain ⟨l, ha, hacq, hrel⟩ := accounted_run hstart hr
  have hperm : (freed t).reverse.Perm (allocated t).reverse := by
    have := ha.holds.all_released
    rwa [hacq, hrel, Ledger.empty, List.append_nil, List.append_nil] at this
  have hnodup : (allocated t).Nodup := by
    have := ha.nodup
    rw [hacq, Ledger.empty, List.append_nil] at this
    exact List.nodup_reverse.1 this
  have hperm' : (freed t).Perm (allocated t) := (List.reverse_perm _).symm.trans (hperm.trans (List.reverse_perm _))
  refine ⟨fun id hid => ?_, fun id hid => hperm'.mem_iff.1 hid⟩
  rw [hperm'.count_eq]
  exact List.count_eq_one_of_mem hnodup hid

end VelaWasm.HeapTrace
