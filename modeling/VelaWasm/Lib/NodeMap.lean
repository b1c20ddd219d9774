/-
Maps of nodes in the way of `std::map`: every entry is a node of its own, an iterator names a node and
stays valid while other entries come and go, and assigning to a key that is present writes through its
node. Node names are never used again, so an iterator to a node that was erased is recognised.
-/
import VelaWasm.Lib.ListSet
import Mathlib.Data.List.Find
import Mathlib.Data.List.Nodup
import Mathlib.Tactic.Common

namespace VelaWasm

structure MapNode (K V : Type*) where
  id : Nat
  key : K
  val : V

/-- A map whose nodes have distinct keys and distinct names below `next`. -/
structure NodeMap (K V : Type*) where
  nodes : List (MapNode K V)
  next : Nat
  fresh : ∀ n ∈ nodes, n.id < next
  ids : (nodes.map MapNode.id).Nodup
  keys : (nodes.map MapNode.key).Nodup

namespace NodeMap

variable {K V : Type*} [DecidableEq K]

/-! ## Operations -/

def empty : NodeMap K V := ⟨[], 0, by simp, List.nodup_nil, List.nodup_nil⟩

/-- `map.find(k)` -/
def find (m : NodeMap K V) (k : K) : Option (MapNode K V) := m.nodes.find? fun n => decide (n.key = k)

/-- A new node. -/
def insert (m : NodeMap K V) (k : K) (v : V) (h : ∀ n ∈ m.nodes, n.key ≠ k) : NodeMap K V where
  nodes := m.nodes ++ [⟨m.next, k, v⟩]
  next := m.next + 1
  fresh := by
    intro n hn
    rcases List.mem_append.1 hn with hn | hn
    · exact Nat.lt_succ_of_lt (m.fresh n hn)
    · rw [List.mem_singleton.1 hn]
      exact Nat.lt_succ_self _
  ids := by
    rw [List.map_append, List.map_singleton, List.nodup_append]
    refine ⟨m.ids, List.nodup_singleton _, fun a ha b hb => ?_⟩
    obtain ⟨n, hn, rfl⟩ := List.mem_map.1 ha
    rw [List.mem_singleton.1 hb]
    exact Nat.ne_of_lt (m.fresh n hn)
  keys := by
    rw [List.map_append, List.map_singleton, List.nodup_append]
    refine ⟨m.keys, List.nodup_singleton _, fun a ha b hb => ?_⟩
    obtain ⟨n, hn, rfl⟩ := List.mem_map.1 ha
    rw [List.mem_singleton.1 hb]
    exact h n hn

/-- Write `v` through the node `i`. -/
def write (m : NodeMap K V) (i : Nat) (v : V) : NodeMap K V where
  nodes := m.nodes.map fun n => if n.id = i then { n with val := v } else n
  next := m.next
  fresh := by
    intro n hn
    obtain ⟨n', hn', rfl⟩ := List.mem_map.1 hn
    split_ifs <;> exact m.fresh n' hn'
  ids := by
    rw [List.map_map]
    refine Eq.mp (congrArg List.Nodup (List.map_congr_left fun n _ => ?_)) m.ids
    simp only [Function.comp]
    split_ifs <;> rfl
  keys := by
    rw [List.map_map]
    refine Eq.mp (congrArg List.Nodup (List.map_congr_left fun n _ => ?_)) m.keys
    simp only [Function.comp]
    split_ifs <;> rfl

/-- `map[k] = v` -/
def assign (m : NodeMap K V) (k : K) (v : V) : NodeMap K V :=
  match h : m.find k with
  | some n => m.write n.id v
  | none => m.insert k v fun n hn => by simpa using List.find?_eq_none.1 h n hn

/-- `map.erase(item)`, undefined when `item` names no node. -/
def erase (m : NodeMap K V) (i : Nat) : Option (NodeMap K V) :=
  if m.nodes.any (fun n => decide (n.id = i)) then
    some {
      nodes := m.nodes.filter fun n => decide (n.id ≠ i)
      next := m.next
      fresh := fun n hn => m.fresh n (List.mem_filter.1 hn).1
      ids := (m.nodes.filter_sublist.map _).nodup m.ids
      keys := (m.nodes.filter_sublist.map _).nodup m.keys }
  else none

/-! ## Laws -/

variable {m : NodeMap K V} {k k' : K} {v : V} {n : MapNode K V}

theorem find_eq_none : m.find k = none ↔ ∀ n ∈ m.nodes, n.key ≠ k := by
  simp [find, List.find?_eq_none]

theorem find_eq_some : m.find k = some n ↔ n ∈ m.nodes ∧ n.key = k := by
  constructor
  · exact of_find?_key
  · rintro ⟨hn, rfl⟩
    exact find?_key_of_mem m.keys hn

/-- The iterator of a key that was absent. -/
theorem find_assign_self (h : m.find k = none) : (m.assign k v).find k = some ⟨m.next, k, v⟩ := by
  rw [find_eq_some]
  unfold assign
  split
  · rename_i n hn
    rw [h] at hn
    cases hn
  · exact ⟨List.mem_append_right _ (List.mem_singleton_self _), rfl⟩

theorem find_assign_ne (h : m.find k = none) (hk : k' ≠ k) : (m.assign k v).find k' = m.find k' := by
  unfold assign
  split
  · rename_i n hn
    rw [h] at hn
    cases hn
  · unfold find insert
    rw [List.find?_append]
    simp [Ne.symm hk]

/-- A node after an assignment is the new one, or has the name and the key of one before. -/
theorem of_mem_assign (h : n ∈ (m.assign k v).nodes) :
    n.key = k ∧ n.id = m.next ∨ ∃ n' ∈ m.nodes, n'.id = n.id ∧ n'.key = n.key := by
  unfold assign at h
  split at h
  · right
    obtain ⟨n', hn', rfl⟩ := List.mem_map.1 h
    refine ⟨n', hn', ?_⟩
    split_ifs <;> exact ⟨rfl, rfl⟩
  · rcases List.mem_append.1 h with h | h
    · exact .inr ⟨n, h, rfl, rfl⟩
    · rw [List.mem_singleton.1 h]
      exact .inl ⟨rfl, rfl⟩

theorem next_le_assign : m.next ≤ (m.assign k v).next := by
  unfold assign
  split
  · exact Nat.le_refl _
  · exact Nat.le_succ _

omit [DecidableEq K] in
theorem erase_eq_none {i : Nat} : m.erase i = none ↔ ∀ n ∈ m.nodes, n.id ≠ i := by
  simp [erase]

omit [DecidableEq K] in
theorem of_erase {m' : NodeMap K V} {i : Nat} (h : m.erase i = some m') :
    m'.next = m.next ∧ ∀ n, n ∈ m'.nodes ↔ n ∈ m.nodes ∧ n.id ≠ i := by
  unfold erase at h
  split_ifs at h
  cases h
  exact ⟨rfl, fun n => by simp⟩

/-- Erasing the node of another key. -/
theorem erase_of_find (h : m.find k = some n) :
    ∃ m', m.erase n.id = some m' ∧ ∀ k', k' ≠ k → m'.find k' = m.find k' := by
  obtain ⟨hn, rfl⟩ := find_eq_some.1 h
  have hany : m.nodes.any (fun x => decide (x.id = n.id)) = true :=
    List.any_eq_true.2 ⟨n, hn, decide_eq_true rfl⟩
  refine ⟨_, by rw [erase, if_pos hany], fun k' hk => ?_⟩
  unfold find
  simp only [List.find?_filter]
  refine List.find?_congr fun x hx => ?_
  -- a node with key `k'` is not the one that is erased
  by_cases hx' : x.key = k'
  · have hid : x.id ≠ n.id := fun hid => hk <| by
      rw [← hx', List.inj_on_of_nodup_map m.ids hx hn hid]
    simp [hx', hid]
  · simp [hx']

end NodeMap

end VelaWasm
