/-
The array of aligned allocations as a finite map. After any history of additions and removals it
stands for the map from aligned to raw addresses that the history leaves, and what
`add_to_aligned_map` and `remove_from_aligned_map` answer is what that map says.
-/
import VelaWasm.Lib.Run
import VelaWasm.Lib.SlotMap
import VelaWasm.LibcBypass.AlignedMap

namespace VelaWasm.LibcBypass

open VelaWasm.Run VelaWasm.SlotMap VelaWasm.SlotTable

/-! ## Histories -/

inductive MapCall where
  | add (mapped raw : Addr)
  | remove (mapped : Addr)

/-- The array, with the map that the calls so far leave. -/
structure MapHistory where
  table : List AlignedEntry
  recorded : Addr → Option Addr

/-- An array of `n` entries before the first call. -/
def MapHistory.empty (n : ℕ) : MapHistory := ⟨List.replicate n (0, 0), fun _ => none⟩

/-- One call. An addition is of a non-zero pair whose key is not in the map, and is recorded when the
function accepts it. -/
def mapStep (s : MapHistory) : MapCall → Option MapHistory
  | .add mapped raw =>
    if mapped ≠ 0 ∧ raw ≠ 0 ∧ s.recorded mapped = none then
      match addToAlignedMap s.table mapped raw with
      | (table, true) => some ⟨table, Function.update s.recorded mapped (some raw)⟩
      | (table, false) => some { s with table := table }
    else none
  | .remove mapped =>
    some ⟨(removeFromAlignedMap s.table mapped).1, Function.update s.recorded mapped none⟩

/-- The entries `add_to_aligned_map` looks at: those up to the first free one. Its `DEBUGASSERT` is
that none of them has the key it adds. -/
def scannedEntries (map : List AlignedEntry) : List AlignedEntry :=
  match find id (0, 0) map with
  | none => map
  | some i => map.take (i + 1)

/-! ## The functions on an array that stands for a map -/

section

variable {map : List AlignedEntry} {m : Addr → Option Addr} {mapped raw : Addr}

theorem scannedEntries_subset : scannedEntries map ⊆ map := by
  unfold scannedEntries
  split
  · exact List.Subset.refl _
  · exact List.take_subset _ _

/-- An addition to a full array is refused, and changes nothing. -/
theorem addToAlignedMap_refused (h : (addToAlignedMap map mapped raw).2 = false) :
    find id (0, 0) map = none ∧ (addToAlignedMap map mapped raw).1 = map := by
  cases hf : find id (0, 0) map with
  | none => exact ⟨rfl, by rw [addToAlignedMap_full hf]⟩
  | some i =>
    rw [addToAlignedMap_free hf] at h
    cases h

theorem addToAlignedMap_refused_iff (h : Represents (0, 0) map m) :
    (addToAlignedMap map mapped raw).2 = false ↔ ∀ e ∈ map, e.1 ≠ 0 ∧ e.2 ≠ 0 := by
  constructor
  · intro hr e he
    have hne : e ≠ (0, 0) := find_eq_none.1 (addToAlignedMap_refused hr).1 e he
    exact (h.slots e he).resolve_left hne
  · intro hfull
    have hnone : find id (0, 0) map = none := by
      refine find_eq_none.2 fun e he hfree => (hfull e he).1 ?_
      rw [show e = (0, 0) from hfree]
    rw [addToAlignedMap_full hnone]

theorem length_addToAlignedMap : (addToAlignedMap map mapped raw).1.length = map.length := by
  cases hf : find id (0, 0) map with
  | none => rw [addToAlignedMap_full hf]
  | some i => rw [addToAlignedMap_free hf, List.length_set]

theorem represents_addToAlignedMap (h : Represents (0, 0) map m) (hk : mapped ≠ 0) (hv : raw ≠ 0)
    (hm : m mapped = none) (ha : (addToAlignedMap map mapped raw).2 = true) :
    Represents (0, 0) (addToAlignedMap map mapped raw).1 (Function.update m mapped (some raw)) := by
  cases hf : find id (0, 0) map with
  | none =>
    rw [addToAlignedMap_full hf] at ha
    cases ha
  | some i =>
    obtain ⟨e, hi, he, -⟩ := find_eq_some.1 hf
    rw [show e = (0, 0) from he] at hi
    rw [addToAlignedMap_free hf]
    exact h.add hi hk hv hm

/-- A recorded entry is returned, and its slot cleared. -/
theorem removeFromAlignedMap_recorded (h : Represents (0, 0) map m) (hm : m mapped = some raw) :
    ∃ i, map[i]? = some (mapped, raw) ∧ removeFromAlignedMap map mapped = (map.set i (0, 0), raw) := by
  obtain ⟨i, hf, hi⟩ := h.find_some hm
  exact ⟨i, hi, removeFromAlignedMap_some (h.key_ne hm) hf hi⟩

theorem removeFromAlignedMap_unrecorded (h : Represents (0, 0) map m) (hm : m mapped = none) :
    removeFromAlignedMap map mapped = (map, 0) := by
  by_cases hk : mapped = 0
  · rw [removeFromAlignedMap, if_pos hk]
  · exact removeFromAlignedMap_none (find_eq_none.2 (h.key_unused hk hm))

theorem length_removeFromAlignedMap : (removeFromAlignedMap map mapped).1.length = map.length := by
  unfold removeFromAlignedMap
  split_ifs
  · rfl
  · split
    · rfl
    · exact List.length_set

theorem represents_removeFromAlignedMap (h : Represents (0, 0) map m) :
    Represents (0, 0) (removeFromAlignedMap map mapped).1 (Function.update m mapped none) := by
  cases hm : m mapped with
  | none =>
    rw [removeFromAlignedMap_unrecorded h hm, Function.update_eq_self_iff.2 hm.symm]
    exact h
  | some raw =>
    obtain ⟨i, hi, heq⟩ := removeFromAlignedMap_recorded h hm
    rw [heq]
    exact h.delete hi (h.key_ne hm)

end

/-! ## Runs -/

/-- A call keeps an array that stands for the map of its history so, and as long as it was. -/
theorem represents_step {s t : MapHistory} {c : MapCall} (h : Represents (0, 0) s.table s.recorded)
    (hs : mapStep s c = some t) : Represents (0, 0) t.table t.recorded ∧ t.table.length = s.table.length := by
  cases c with
  | add mapped raw =>
    simp only [mapStep] at hs
    split_ifs at hs with hc
    obtain ⟨hk, hv, hm⟩ := hc
    have hlen : (addToAlignedMap s.table mapped raw).1.length = s.table.length := length_addToAlignedMap
    cases ha : addToAlignedMap s.table mapped raw with
    | mk table accepted =>
      rw [ha] at hs hlen
      cases accepted with
      | true =>
        cases hs
        have hadded := represents_addToAlignedMap h hk hv hm (by rw [ha])
        rw [ha] at hadded
        exact ⟨hadded, hlen⟩
      | false =>
        -- a refused addition leaves the array and the map
        cases hs
        have hsame : (addToAlignedMap s.table mapped raw).1 = s.table := (addToAlignedMap_refused (by rw [ha])).2
        rw [ha] at hsame
        cases hsame
        exact ⟨h, rfl⟩
  | remove mapped =>
    cases hs
    exact ⟨represents_removeFromAlignedMap h, length_removeFromAlignedMap⟩

theorem represents_run {n : ℕ} {cs : List MapCall} {s : MapHistory}
    (h : exec mapStep (MapHistory.empty n) cs = some s) :
    Represents (0, 0) s.table s.recorded ∧ s.table.length = n := by
  refine exec_preserves (I := fun s => Represents (0, 0) s.table s.recorded ∧ s.table.length = n) ?_ ?_ h
  · rintro s c t ⟨hrep, hlen⟩ hs
    obtain ⟨hrep', hlen'⟩ := represents_step hrep hs
    exact ⟨hrep', hlen'.trans hlen⟩
  · exact ⟨represents_replicate n, List.length_replicate⟩

/-- What the functions answer for the array is what the map `m` says, and the array stands for `m`. -/
structure AnswersAs (map : List AlignedEntry) (m : Addr → Option Addr) : Prop where
  represents : Represents (0, 0) map m
  add_refused : ∀ mapped raw, (addToAlignedMap map mapped raw).2 = false ↔ ∀ e ∈ map, e.1 ≠ 0 ∧ e.2 ≠ 0
  add_unchanged : ∀ mapped raw, (addToAlignedMap map mapped raw).2 = false →
    (addToAlignedMap map mapped raw).1 = map
  add_recorded : ∀ mapped raw, mapped ≠ 0 → raw ≠ 0 → m mapped = none →
    (addToAlignedMap map mapped raw).2 = true →
    Represents (0, 0) (addToAlignedMap map mapped raw).1 (Function.update m mapped (some raw))
  /-- The `DEBUGASSERT` does not fire. -/
  add_asserts : ∀ mapped, mapped ≠ 0 → m mapped = none → ∀ e ∈ scannedEntries map, e.1 ≠ mapped
  remove_recorded : ∀ mapped raw, m mapped = some raw → raw ≠ 0 ∧
    ∃ i, map[i]? = some (mapped, raw) ∧ removeFromAlignedMap map mapped = (map.set i (0, 0), raw)
  remove_unrecorded : ∀ mapped, m mapped = none → removeFromAlignedMap map mapped = (map, 0)
  remove_deletes : ∀ mapped,
    Represents (0, 0) (removeFromAlignedMap map mapped).1 (Function.update m mapped none)

theorem answersAs_of_represents {map : List AlignedEntry} {m : Addr → Option Addr} (h : Represents (0, 0) map m) :
    AnswersAs map m where
  represents := h
  add_refused _ _ := addToAlignedMap_refused_iff h
  add_unchanged _ _ hr := (addToAlignedMap_refused hr).2
  add_recorded _ _ hk hv hm ha := represents_addToAlignedMap h hk hv hm ha
  add_asserts _ hk hm e he := h.key_unused hk hm e (scannedEntries_subset he)
  remove_recorded mapped raw hm := by
    obtain ⟨i, hi, heq⟩ := removeFromAlignedMap_recorded h hm
    have hocc : (mapped, raw) = ((0, 0) : AlignedEntry) ∨ mapped ≠ 0 ∧ raw ≠ 0 :=
      h.slots _ (List.mem_of_getElem? hi)
    refine ⟨?_, i, hi, heq⟩
    rcases hocc with hfree | ⟨-, hraw⟩
    · cases hfree
      exact absurd rfl (h.key_ne hm)
    · exact hraw
  remove_unrecorded _ hm := removeFromAlignedMap_unrecorded h hm
  remove_deletes _ := represents_removeFromAlignedMap h

/-- After every history the array answers as the map the history leaves. -/
theorem alignedMap_is_finite_map {n : ℕ} {cs : List MapCall} {s : MapHistory}
    (h : exec mapStep (MapHistory.empty n) cs = some s) :
    AnswersAs s.table s.recorded ∧ s.table.length = n := by
  obtain ⟨hrep, hlen⟩ := represents_run h
  exact ⟨answersAs_of_represents hrep, hlen⟩

/-- An entry removed before another one leaves a hole, which the next addition fills; the array of two
is then full. -/
theorem alignedMap_reuses_hole :
    ∃ s, exec mapStep (MapHistory.empty 2)
        [.add 0x100 0x1100, .add 0x200 0x1200, .remove 0x100, .add 0x300 0x1300, .add 0x400 0x1400] = some s ∧
      s.table = [(0x300, 0x1300), (0x200, 0x1200)] ∧ AnswersAs s.table s.recorded :=
  ⟨_, rfl, rfl, (@alignedMap_is_finite_map 2
    [.add 0x100 0x1100, .add 0x200 0x1200, .remove 0x100, .add 0x300 0x1300, .add 0x400 0x1400] _ rfl).1⟩

end VelaWasm.LibcBypass
