/-
Linked lists of nodes: each node stands at an address of its own and holds a value, the nodes are
kept in list order. `modify` writes through a node's address and `erase` unlinks a node; both keep
the addresses distinct, so a lookup and a membership say the same.
-/
import VelaWasm.Lib.ListSet
import Mathlib.Algebra.Order.BigOperators.Group.List
import Mathlib.Algebra.Order.Ring.Nat
import Mathlib.Data.List.Nodup
import Mathlib.Tactic.Common

namespace VelaWasm

/-- A list of values at pairwise distinct addresses. -/
structure NodeList (A V : Type*) where
  nodes : List (A × V)
  nodup : (nodes.map Prod.fst).Nodup

namespace NodeList

variable {A V : Type*} [DecidableEq A]

/-! ## Operations -/

/-- The value of the node at `a`. -/
def lookup (l : NodeList A V) (a : A) : Option V := (l.nodes.find? fun p => decide (p.1 = a)).map Prod.snd

/-- The addresses in list order. -/
def addrs (l : NodeList A V) : List A := l.nodes.map Prod.fst

theorem map_fst_modify (a : A) (f : V → V) (l : List (A × V)) :
    (l.map fun p => if p.1 = a then (p.1, f p.2) else p).map Prod.fst = l.map Prod.fst := by
  rw [List.map_map]
  refine List.map_congr_left fun p _ => ?_
  simp only [Function.comp]
  split_ifs <;> rfl

/-- Rewrite the value of the node at `a`. -/
def modify (l : NodeList A V) (a : A) (f : V → V) : NodeList A V where
  nodes := l.nodes.map fun p => if p.1 = a then (p.1, f p.2) else p
  nodup := by rw [map_fst_modify]; exact l.nodup

/-- Rewrite the values of all nodes. -/
def map (l : NodeList A V) (f : V → V) : NodeList A V where
  nodes := l.nodes.map fun p => (p.1, f p.2)
  nodup := by rw [List.map_map]; exact l.nodup

/-- Link a new node at the tail. -/
def concat (l : NodeList A V) (a : A) (v : V) (h : a ∉ l.addrs) : NodeList A V where
  nodes := l.nodes ++ [(a, v)]
  nodup := by
    rw [List.map_append]
    exact List.nodup_append.2 ⟨l.nodup, List.nodup_singleton a, fun b hb c hc => by
      rw [List.mem_singleton.1 hc]
      rintro rfl
      exact h hb⟩

/-- Unlink the node at `a`. -/
def erase (l : NodeList A V) (a : A) : NodeList A V where
  nodes := l.nodes.filter fun p => decide (p.1 ≠ a)
  nodup := (l.nodes.filter_sublist.map Prod.fst).nodup l.nodup

/-! ## Laws -/

theorem mem_of_lookup {l : NodeList A V} {a : A} {v : V} (h : l.lookup a = some v) : (a, v) ∈ l.nodes := by
  obtain ⟨p, hp, rfl⟩ := Option.map_eq_some_iff.1 h
  obtain ⟨hmem, rfl⟩ := of_find?_key hp
  exact hmem

theorem lookup_of_mem {l : NodeList A V} {p : A × V} (h : p ∈ l.nodes) : l.lookup p.1 = some p.2 := by
  rw [lookup, find?_key_of_mem l.nodup h]
  rfl

theorem lookup_eq_some {l : NodeList A V} {a : A} {v : V} : l.lookup a = some v ↔ (a, v) ∈ l.nodes :=
  ⟨mem_of_lookup, fun h => lookup_of_mem h⟩

/-- There is one node at an address. -/
theorem eq_of_mem {l : NodeList A V} {a : A} {v w : V} (hv : (a, v) ∈ l.nodes) (hw : (a, w) ∈ l.nodes) : v = w :=
  Option.some.inj ((lookup_eq_some.2 hv).symm.trans (lookup_eq_some.2 hw))

theorem mem_modify {l : NodeList A V} {a : A} {f : V → V} {p : A × V} :
    p ∈ (l.modify a f).nodes ↔ (p.1 ≠ a ∧ p ∈ l.nodes) ∨ (p.1 = a ∧ ∃ v, (a, v) ∈ l.nodes ∧ p.2 = f v) := by
  simp only [modify, List.mem_map]
  constructor
  · rintro ⟨q, hq, rfl⟩
    split_ifs with ha
    · exact .inr ⟨ha, q.2, ha ▸ hq, rfl⟩
    · exact .inl ⟨ha, hq⟩
  · rintro (⟨hne, hp⟩ | ⟨ha, v, hv, hf⟩)
    · exact ⟨p, hp, if_neg hne⟩
    · refine ⟨(a, v), hv, ?_⟩
      rw [if_pos rfl, ← ha, ← hf]

theorem lookup_modify_self {l : NodeList A V} {a : A} {f : V → V} {v : V} (h : l.lookup a = some v) :
    (l.modify a f).lookup a = some (f v) :=
  lookup_eq_some.2 (mem_modify.2 (.inr ⟨rfl, v, mem_of_lookup h, rfl⟩))

theorem mem_erase {l : NodeList A V} {a : A} {p : A × V} :
    p ∈ (l.erase a).nodes ↔ p.1 ≠ a ∧ p ∈ l.nodes := by
  simp [erase, and_comm]

omit [DecidableEq A] in
theorem mem_addrs {l : NodeList A V} {a : A} : a ∈ l.addrs ↔ ∃ v, (a, v) ∈ l.nodes := by
  simp [addrs]

theorem lookup_mem_addrs {l : NodeList A V} {a : A} {v : V} (h : l.lookup a = some v) : a ∈ l.addrs :=
  mem_addrs.2 ⟨v, mem_of_lookup h⟩

@[simp] theorem addrs_modify (l : NodeList A V) (a : A) (f : V → V) : (l.modify a f).addrs = l.addrs :=
  map_fst_modify a f l.nodes

omit [DecidableEq A] in
@[simp] theorem addrs_map (l : NodeList A V) (f : V → V) : (l.map f).addrs = l.addrs := by
  simp [addrs, map]

omit [DecidableEq A] in
@[simp] theorem addrs_concat (l : NodeList A V) (a : A) (v : V) (h : a ∉ l.addrs) :
    (l.concat a v h).addrs = l.addrs ++ [a] := by
  simp [addrs, concat]

theorem addrs_erase (l : NodeList A V) (a : A) : (l.erase a).addrs = l.addrs.filter fun b => decide (b ≠ a) := by
  simp [addrs, erase, List.filter_map, Function.comp_def]

/-! ## Sums -/

/-- The sum of a weight over the nodes. -/
def total (w : V → ℕ) (l : NodeList A V) : ℕ := (l.nodes.map fun p => w p.2).sum

theorem total_modify_lt {w : V → ℕ} {l : NodeList A V} {a : A} {v : V} {f : V → V} (h : l.lookup a = some v)
    (hw : w (f v) < w v) : (l.modify a f).total w < l.total w := by
  have hv : ∀ p ∈ l.nodes, p.1 = a → p.2 = v := by
    rintro ⟨b, u⟩ hp rfl
    exact eq_of_mem hp (mem_of_lookup h)
  unfold total modify
  rw [List.map_map]
  refine List.sum_lt_sum _ _ (fun p hp => ?_) ⟨(a, v), mem_of_lookup h, ?_⟩
  · simp only [Function.comp]
    split_ifs with ha
    · rw [hv p hp ha]
      exact hw.le
    · exact le_rfl
  · simpa using hw

theorem total_erase_lt {w : V → ℕ} {l : NodeList A V} {a : A} {v : V} (h : l.lookup a = some v) (hw : 0 < w v) :
    (l.erase a).total w < l.total w := by
  have hperm := (List.filter_append_perm (fun p : A × V => decide (p.1 ≠ a)) l.nodes).map fun p => w p.2
  have hmem : w v ∈ (l.nodes.filter fun p => !decide (p.1 ≠ a)).map fun p => w p.2 :=
    List.mem_map.2 ⟨(a, v), List.mem_filter.2 ⟨mem_of_lookup h, by simp⟩, rfl⟩
  have hle := List.single_le_sum (fun _ _ => Nat.zero_le _) _ hmem
  simp only [total, erase]
  rw [← hperm.sum_eq, List.map_append, List.sum_append]
  omega

end NodeList

end VelaWasm
