/-
Lookups by the name a module was registered under. `lwac__register_wasm_module` keeps what a record has room for of a
name, and `lwac__find_wasm_module_by_name` compares all of it: a name that is cut is never found again, and hides the
records that have what is left of it for a name.
-/
import VelaWasm.Lwac.LinkedRegistry

namespace VelaWasm.Lwac

open VelaWasm.Run

/-! ## Registrations and lookups -/

/-- The registry, and its live records, the latest first, under the names they were registered under. -/
structure NamedRegistry where
  registry : LinkedRegistry
  registered : RegistrySpec

def NamedRegistry.start : NamedRegistry := ⟨.start, .start⟩

def namedStep (s : NamedRegistry) (op : RegistryOp) : Option NamedRegistry :=
  if s.registry.Allocates op then
    (s.registry.perform op).map fun (r, _) => ⟨r, (s.registered.perform id op).1⟩
  else none

/-- The latest live record that was registered under `name`. -/
def NamedRegistry.latest (s : NamedRegistry) (name : CString) : Option (Addr × WasmModuleInfo) :=
  s.registered.entries.find? fun e => e.2.name = name

/-- A lookup by the name of a live record copies the latest one that was registered under it, without its `next`. -/
def FindsRegistered (s : NamedRegistry) : Prop :=
  ∀ name e, s.latest name = some e → ∃ node, s.registry.memory e.1 = some node ∧
    s.registry.findWasmModuleByName (some name) true = some (0, some { node with next := null })

/-- A name that is registered fits a record. -/
def NameFits : RegistryOp → Prop
  | .register (some _) _ name .. => name.length < nameSize
  | _ => True

instance : DecidablePred NameFits
  | .register (some _) .. => inferInstanceAs (Decidable (_ < _))
  | .register none .. | .unregister _ | .findById _ | .findByName .. | .count => isTrue trivial

/-! ## What is left of the names -/

/-- An entry with what its record keeps of the name. -/
def cutEntry (e : Addr × WasmModuleInfo) : Addr × WasmModuleInfo := (e.1, { e.2 with name := keptName e.2.name })

/-- The sequence of the records, with what they keep of the names. -/
def RegistrySpec.cut (s : RegistrySpec) : RegistrySpec := { s with entries := s.entries.map cutEntry }

variable {s t : NamedRegistry} {op : RegistryOp} {name : CString} {e : Addr × WasmModuleInfo}

/-- An operation on the sequence does the same whatever is left of the names. -/
theorem cut_perform (s : RegistrySpec) (op : RegistryOp) : (s.cut.perform keptName op).1 = (s.perform id op).1.cut := by
  cases op with
  | register malloc =>
    cases malloc with
    | none => rfl
    | some a => rfl
  | unregister inst =>
    have hmem : (∃ e ∈ s.cut.entries, e.2.moduleInst = inst) ↔ ∃ e ∈ s.entries, e.2.moduleInst = inst := by
      simp [RegistrySpec.cut, cutEntry]
    have herase : (s.cut.entries.eraseP fun e => e.2.moduleInst = inst) =
        (s.entries.eraseP fun e => e.2.moduleInst = inst).map cutEntry := List.eraseP_map
    rw [RegistrySpec.perform, RegistrySpec.perform]
    by_cases h : ∃ e ∈ s.entries, e.2.moduleInst = inst
    · rw [if_pos (hmem.2 h), if_pos h, herase]
      rfl
    · rw [if_neg (mt hmem.1 h), if_neg h]
  | findById moduleId => rfl
  | findByName name moduleInfo =>
    cases name with
    | none => rfl
    | some name => cases moduleInfo <;> rfl
  | count => rfl

/-- The names of the records are those there were, and the one that is registered. -/
theorem fit_perform {s : RegistrySpec} (h : ∀ e ∈ s.entries, e.2.name.length < nameSize) (hop : NameFits op) :
    ∀ e ∈ (s.perform id op).1.entries, e.2.name.length < nameSize := by
  cases op with
  | register malloc now name =>
    cases malloc with
    | none => exact h
    | some a =>
      intro e he
      rcases List.mem_cons.1 he with rfl | he
      · exact hop
      · exact h e he
  | unregister inst =>
    rw [RegistrySpec.perform]
    split_ifs
    · exact fun e he => h e (List.mem_of_mem_eraseP he)
    · exact h
  | findById moduleId => exact h
  | findByName name moduleInfo =>
    cases name with
    | none => exact h
    | some name => cases moduleInfo <;> exact h
  | count => exact h

theorem keptName_eq (h : name.length < nameSize) : keptName name = name :=
  List.take_of_length_le (Nat.le_pred_of_lt h)

/-! ## Steps -/

/-- The records are those of the registrations, which kept their names entirely. -/
structure NamesKept (s : NamedRegistry) : Prop where
  represents : Represents s.registry s.registered.cut
  fit : ∀ e ∈ s.registered.entries, e.2.name.length < nameSize

theorem represents_namedStep (h : Represents s.registry s.registered.cut) (hs : namedStep s op = some t) :
    Represents t.registry t.registered.cut := by
  obtain ⟨halloc, hs⟩ := Option.ite_none_right_eq_some.1 hs
  obtain ⟨r, hr, hrep⟩ := represents_step h halloc
  rw [hr] at hs
  cases hs
  rw [cut_perform] at hrep
  exact hrep

theorem registered_namedStep (hs : namedStep s op = some t) : t.registered = (s.registered.perform id op).1 := by
  obtain ⟨-, hs⟩ := Option.ite_none_right_eq_some.1 hs
  obtain ⟨r, -, rfl⟩ := Option.map_eq_some_iff.1 hs
  rfl

theorem namesKept_step (h : NamesKept s) (hop : NameFits op) (hs : namedStep s op = some t) : NamesKept t := by
  refine ⟨represents_namedStep h.represents hs, ?_⟩
  rw [registered_namedStep hs]
  exact fit_perform h.fit hop

theorem findsRegistered_of_kept (h : NamesKept s) : FindsRegistered s := by
  intro name e he
  have hmem : e ∈ s.registered.entries := List.mem_of_find?_eq_some he
  have hcut : cutEntry e ∈ s.registered.cut.entries := List.mem_map_of_mem hmem
  -- the cut names are the names
  have hfind : (s.registered.cut.entries.find? fun d => d.2.name = name) = some (cutEntry e) := by
    have hsame : (s.registered.entries.find? fun d => (cutEntry d).2.name = name) = some e := by
      rw [← he]
      refine List.find?_congr fun d hd => ?_
      have hname : (cutEntry d).2.name = d.2.name := keptName_eq (h.fit d hd)
      rw [hname]
    show (s.registered.entries.map cutEntry).find? _ = _
    rw [List.find?_map]
    exact congrArg (Option.map cutEntry) hsame
  obtain ⟨node, hnode, hinfo⟩ := h.represents.sequence.records _ hcut
  refine ⟨node, hnode, ?_⟩
  rw [represents_findByName h.represents, hfind, Option.elim_some, hinfo]

/-- A name that does not fit is not found once it is registered. -/
theorem not_findsRegistered (h : Represents s.registry s.registered.cut) (hop : ¬ NameFits op)
    (hs : namedStep s op = some t) : ¬ FindsRegistered t := by
  intro hf
  have hrep := represents_namedStep h hs
  have ht := registered_namedStep hs
  cases op with
  | register malloc now name stackSize heapSize wasmModule moduleInst execEnv =>
    cases malloc with
    | none => exact hop trivial
    | some a =>
      -- the record is live, under all of its name
      have hlatest : ∃ e, t.latest name = some e := by
        rw [NamedRegistry.latest, ht]
        exact ⟨_, List.find?_cons_of_pos (decide_eq_true rfl)⟩
      obtain ⟨e, he⟩ := hlatest
      obtain ⟨node, -, hfound⟩ := hf name e he
      -- every name in the registry is shorter
      have hnone : (t.registered.cut.entries.find? fun d => d.2.name = name) = none := by
        refine List.find?_eq_none.2 fun d hd hname => hop ?_
        have hlt := hrep.names d hd
        rwa [of_decide_eq_true hname] at hlt
      rw [represents_findByName hrep, hnone] at hfound
      cases hfound
  | unregister | findById | findByName | count => exact hop trivial

/-! ## Runs -/

/-- In every state of a run the live records are found by the names they were registered under exactly when every name
fits a record. -/
theorem findsRegistered_iff_namesFit {ops : List RegistryOp} (h : exec namedStep .start ops = some t) :
    Along namedStep FindsRegistered .start ops ↔ Meets namedStep (fun _ op => NameFits op) .start ops := by
  refine along_iff_meets (I := NamesKept) (fun s => findsRegistered_of_kept)
    (fun s op t hi hop hs => namesKept_step hi hop hs)
    (fun s op t hi hop hs => not_findsRegistered hi.represents hop hs) ?_ h
  exact ⟨represents_start, fun e he => by cases he⟩

/-- A name of 63 characters, under which a second module is registered and unregistered again. -/
def fittingNames : List RegistryOp :=
  [.register (some 0x1000) 10 (List.replicate 63 'a') 2048 4096 0x100 0x200 0x300,
    .register (some 0x2000) 11 (List.replicate 62 'a') 2048 4096 0x110 0x210 0x310,
    .register (some 0x3000) 12 (List.replicate 63 'a') 2048 4096 0x120 0x220 0x320, .unregister 0x220]

theorem findsRegistered_fittingNames : Along namedStep FindsRegistered .start fittingNames := by
  obtain ⟨t, ht⟩ : ∃ t, exec namedStep .start fittingNames = some t := ⟨_, rfl⟩
  exact (findsRegistered_iff_namesFit ht).2 (by decide)

/-- A name of 64 characters is registered and then not found. -/
theorem longName_not_found :
    ¬ ∀ (ops : List RegistryOp) (t : NamedRegistry), exec namedStep .start ops = some t → FindsRegistered t := by
  intro h
  obtain ⟨t, ht, hlatest, hfound⟩ : ∃ t, exec namedStep .start
      [.register (some 0x1000) 10 (List.replicate 64 'a') 2048 4096 0x100 0x200 0x300] = some t ∧
      (∃ e, t.latest (List.replicate 64 'a') = some e) ∧
      t.registry.findWasmModuleByName (some (List.replicate 64 'a')) true = some (-LinkedRegistry.enoent, none) :=
    ⟨_, rfl, ⟨_, rfl⟩, by decide⟩
  obtain ⟨e, he⟩ := hlatest
  obtain ⟨node, -, hnode⟩ := h _ t ht _ e he
  rw [hfound] at hnode
  cases hnode

end VelaWasm.Lwac
