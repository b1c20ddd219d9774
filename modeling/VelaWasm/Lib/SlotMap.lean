/-
Tables of slots that hold a key and a value each, as finite maps. A slot is free when it is the pair
`free`, and every other slot has a key and a value that `free` has not. `Represents` relates a table
to the map it stands for: a record is written to a free slot, wherever it is, and deleted by writing
`free` over it.
-/
import Mathlib.Logic.Function.Basic
import VelaWasm.Lib.SlotTable

namespace VelaWasm.SlotMap

open SlotTable

variable {K V : Type*} [DecidableEq K]

/-! ## The map of a table -/

/-- The table `t` stands for the partial map `m`: each slot is free or occupied entirely, no key is
in two of them, and the records in them are those of `m`. -/
structure Represents (free : K × V) (t : List (K × V)) (m : K → Option V) : Prop where
  slots : ∀ e ∈ t, e = free ∨ e.1 ≠ free.1 ∧ e.2 ≠ free.2
  distinct : ∀ (i j : ℕ) (e f : K × V), t[i]? = some e → t[j]? = some f → e.1 = f.1 → e ≠ free → i = j
  content : ∀ k v, m k = some v ↔ k ≠ free.1 ∧ (k, v) ∈ t

variable {free : K × V} {t : List (K × V)} {m : K → Option V} {k : K} {v : V} {i : ℕ}

omit [DecidableEq K] in
theorem represents_replicate (n : ℕ) : Represents free (List.replicate n free) fun _ => none := by
  refine ⟨fun e he => .inl (List.eq_of_mem_replicate he), fun i j e f he _ _ hne => ?_, fun k v => ?_⟩
  · exact absurd (List.eq_of_mem_replicate (List.mem_of_getElem? he)) hne
  · constructor
    · rintro ⟨⟩
    · rintro ⟨hk, hmem⟩
      cases List.eq_of_mem_replicate hmem
      exact absurd rfl hk

/-! ## Searches -/

omit [DecidableEq K] in
theorem Represents.key_ne (h : Represents free t m) (hm : m k = some v) : k ≠ free.1 := ((h.content k v).1 hm).1

/-- A key of the map is found in the slot of its record. -/
theorem Represents.find_some (h : Represents free t m) (hm : m k = some v) :
    ∃ i, find Prod.fst k t = some i ∧ t[i]? = some (k, v) := by
  obtain ⟨hk, hmem⟩ := (h.content k v).1 hm
  obtain ⟨j, hj⟩ := List.mem_iff_getElem?.1 hmem
  cases hf : find Prod.fst k t with
  | none => exact absurd rfl (find_eq_none.1 hf (k, v) hmem)
  | some i =>
    obtain ⟨e, he, hek, -⟩ := find_eq_some.1 hf
    have hne : e ≠ free := fun hfree => hk (hek ▸ hfree ▸ rfl)
    have hij : i = j := h.distinct i j e (k, v) he hj hek hne
    exact ⟨i, rfl, hij ▸ hj⟩

omit [DecidableEq K] in
/-- No slot has a key that the map has not. -/
theorem Represents.key_unused (h : Represents free t m) (hk : k ≠ free.1) (hm : m k = none) : ∀ e ∈ t, e.1 ≠ k := by
  rintro ⟨k', v⟩ he rfl
  have hv := (h.content k' v).2 ⟨hk, he⟩
  rw [hm] at hv
  cases hv

/-! ## Writing a slot -/

omit [DecidableEq K] in
/-- The slots after one of them is written. -/
theorem getElem?_set_cases {e f : K × V} {j : ℕ} (h : (t.set i e)[j]? = some f) :
    (j = i ∧ f = e) ∨ (j ≠ i ∧ t[j]? = some f) := by
  by_cases hj : j = i
  · subst hj
    have hlt : j < t.length := by
      have := (List.getElem?_eq_some_iff.1 h).1
      rwa [List.length_set] at this
    rw [List.getElem?_set_self hlt] at h
    exact .inl ⟨rfl, (Option.some.inj h).symm⟩
  · rw [List.getElem?_set_ne (Ne.symm hj)] at h
    exact .inr ⟨hj, h⟩

omit [DecidableEq K] in
/-- A record that is neither the one written nor the one written over. -/
theorem mem_set_iff {e f g : K × V} (hi : t[i]? = some f) (hf : e ≠ f) (hg : e ≠ g) : e ∈ t.set i g ↔ e ∈ t := by
  constructor
  · intro he
    exact (List.mem_or_eq_of_mem_set he).resolve_right hg
  · intro he
    obtain ⟨j, hj⟩ := List.mem_iff_getElem?.1 he
    have hij : i ≠ j := by
      rintro rfl
      rw [hi] at hj
      exact hf (Option.some.inj hj).symm
    exact List.mem_of_getElem? ((List.getElem?_set_ne hij).trans hj)

/-- A record under a new key, written to a free slot. -/
theorem Represents.add (h : Represents free t m) (hi : t[i]? = some free) (hk : k ≠ free.1) (hv : v ≠ free.2)
    (hm : m k = none) : Represents free (t.set i (k, v)) (Function.update m k (some v)) := by
  have hlt : i < t.length := (List.getElem?_eq_some_iff.1 hi).1
  have hunused := h.key_unused hk hm
  refine ⟨fun e he => ?_, fun a b e f he hf hef hne => ?_, fun k' v' => ?_⟩
  · rcases List.mem_or_eq_of_mem_set he with he | rfl
    · exact h.slots e he
    · exact .inr ⟨hk, hv⟩
  · -- the new key is in no other slot
    rcases getElem?_set_cases he with ⟨rfl, rfl⟩ | ⟨-, he⟩
    · rcases getElem?_set_cases hf with ⟨rfl, -⟩ | ⟨-, hf⟩
      · rfl
      · exact absurd hef.symm (hunused f (List.mem_of_getElem? hf))
    · rcases getElem?_set_cases hf with ⟨-, rfl⟩ | ⟨-, hf⟩
      · exact absurd hef (hunused e (List.mem_of_getElem? he))
      · exact h.distinct a b e f he hf hef hne
  · by_cases hkk : k' = k
    · subst hkk
      rw [Function.update_self]
      constructor
      · rintro ⟨⟩
        exact ⟨hk, List.mem_set hlt _⟩
      · rintro ⟨-, hmem⟩
        rcases List.mem_or_eq_of_mem_set hmem with hmem | heq
        · exact absurd rfl (hunused _ hmem)
        · cases heq
          rfl
    · rw [Function.update_of_ne hkk, h.content]
      refine and_congr_right fun hk' => (mem_set_iff hi ?_ ?_).symm
      · rintro rfl
        exact hk' rfl
      · rintro ⟨⟩
        exact hkk rfl

/-- The record of a key, written over. -/
theorem Represents.delete (h : Represents free t m) (hi : t[i]? = some (k, v)) (hk : k ≠ free.1) :
    Represents free (t.set i free) (Function.update m k none) := by
  refine ⟨fun e he => ?_, fun a b e f he hf hef hne => ?_, fun k' v' => ?_⟩
  · rcases List.mem_or_eq_of_mem_set he with he | rfl
    · exact h.slots e he
    · exact .inl rfl
  · rcases getElem?_set_cases he with ⟨-, hfree⟩ | ⟨-, hat⟩
    · exact absurd hfree hne
    · have hkey : e.1 ≠ free.1 := ((h.slots e (List.mem_of_getElem? hat)).resolve_left hne).1
      rcases getElem?_set_cases hf with ⟨-, hfree⟩ | ⟨-, hat'⟩
      · exact absurd (hfree ▸ hef) hkey
      · exact h.distinct a b e f hat hat' hef hne
  · by_cases hkk : k' = k
    · subst hkk
      rw [Function.update_self]
      refine iff_of_false (by simp) ?_
      rintro ⟨-, hmem⟩
      obtain ⟨j, hj⟩ := List.mem_iff_getElem?.1 hmem
      rcases getElem?_set_cases hj with ⟨-, hfree⟩ | ⟨hji, hj⟩
      · exact hk (hfree ▸ rfl)
      · -- a second slot with the key
        have hne : (k', v') ≠ free := fun hfree => hk (hfree ▸ rfl)
        exact hji (h.distinct j i _ _ hj hi rfl hne)
    · rw [Function.update_of_ne hkk, h.content]
      refine and_congr_right fun hk' => (mem_set_iff hi ?_ ?_).symm
      · rintro ⟨⟩
        exact hkk rfl
      · rintro rfl
        exact hk' rfl

end VelaWasm.SlotMap
