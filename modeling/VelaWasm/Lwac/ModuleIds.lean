/-
The ids of the registered modules. `g_module_id_counter` counts the registrations modulo 2^32 and is never tested:
the ids tell the records apart through a run exactly as long as fewer than 2^32 registrations succeed in it, since
that many bring the counter back to 0.
-/
import VelaWasm.Lib.ListSet
import VelaWasm.Lwac.LinkedRegistry

namespace VelaWasm.Lwac

open VelaWasm.Run

/-! ## The property -/

/-- The ids of the records are distinct and not 0, and a lookup by the id of a record returns that record. -/
def Identified (r : LinkedRegistry) : Prop :=
  ∃ entries, r.Sequence entries ∧ (entries.map fun e => e.2.moduleId).Nodup ∧
    ∀ e ∈ entries, e.2.moduleId ≠ 0 ∧ r.findWasmModuleById e.2.moduleId = some e.1

/-- A registration for which there is memory. -/
def RegistryOp.registers : RegistryOp → Bool
  | register malloc .. => malloc.isSome
  | unregister _ | findById _ | findByName .. | count => false

/-! ## The invariant -/

/-- Before the counter wraps, the ids are numbers up to its value, the latest first. -/
structure Numbered (s : RegistrySpec) : Prop where
  bounds : ∀ e ∈ s.entries, 0 < e.2.moduleId.toNat ∧ e.2.moduleId.toNat ≤ s.registered
  decreasing : (s.entries.map fun e => e.2.moduleId.toNat).Pairwise (· > ·)

theorem numbered_start : Numbered .start := ⟨fun _ h => (by cases h), .nil⟩

variable {r t : LinkedRegistry} {s : RegistrySpec} {op : RegistryOp}

theorem identified_of_numbered (h : Represents r s) (hn : Numbered s) : Identified r := by
  have hnodup : (s.entries.map fun e => e.2.moduleId).Nodup := by
    refine List.Nodup.of_map UInt32.toNat ?_
    rw [List.map_map]
    exact hn.decreasing.imp fun hab => Nat.ne_of_gt hab
  refine ⟨s.entries, h.sequence, hnodup, fun e he => ⟨?_, ?_⟩⟩
  · intro hzero
    have := (hn.bounds e he).1
    rw [hzero] at this
    exact Nat.lt_irrefl 0 this
  · rw [represents_findById h, find?_key_of_mem hnodup he]
    rfl

/-- A record under the id 0 at the head. -/
theorem not_identified_of_zero {a : Addr} {node : Node} (ha : r.moduleListHead = a) (hnull : a ≠ null)
    (hnode : r.memory a = some node) (hzero : node.info.moduleId = 0) : ¬ Identified r := by
  rintro ⟨entries, hseq, -, hids⟩
  cases entries with
  | nil => exact hnull (ha.symm.trans hseq.linked)
  | cons e entries =>
    have hhead : r.moduleListHead = e.1 := hseq.linked.1
    obtain ⟨node', hnode', hinfo⟩ := hseq.records e List.mem_cons_self
    rw [← hhead, ha, hnode] at hnode'
    cases hnode'
    exact (hids e List.mem_cons_self).1 (hinfo ▸ hzero)

/-! ## Steps -/

theorem registered_perform (keep : CString → CString) (s : RegistrySpec) (op : RegistryOp) :
    (s.perform keep op).1.registered = s.registered + if op.registers then 1 else 0 := by
  cases op with
  | register malloc => cases malloc <;> rfl
  | unregister inst =>
    by_cases hmem : ∃ e ∈ s.entries, e.2.moduleInst = inst
    · rw [RegistrySpec.perform, if_pos hmem]
      rfl
    · rw [RegistrySpec.perform, if_neg hmem]
      rfl
  | findById => rfl
  | findByName name moduleInfo => cases name <;> cases moduleInfo <;> rfl
  | count => rfl

/-- A step keeps the numbering unless the counter wraps. -/
theorem numbered_step (keep : CString → CString) (hn : Numbered s)
    (hlt : (s.perform keep op).1.registered < 2 ^ 32) : Numbered (s.perform keep op).1 := by
  cases op with
  | register malloc now name stackSize heapSize wasmModule moduleInst execEnv =>
    cases malloc with
    | none => exact hn
    | some a =>
      have hid : (UInt32.ofNat (s.registered + 1)).toNat = s.registered + 1 := UInt32.toNat_ofNat_of_lt' hlt
      refine ⟨fun e he => ?_, ?_⟩
      · rcases List.mem_cons.1 he with rfl | he
        · show 0 < (UInt32.ofNat (s.registered + 1)).toNat ∧ (UInt32.ofNat (s.registered + 1)).toNat ≤ s.registered + 1
          omega
        · obtain ⟨h1, h2⟩ := hn.bounds e he
          exact ⟨h1, Nat.le_succ_of_le h2⟩
      · refine List.pairwise_cons.2 ⟨fun k hk => ?_, hn.decreasing⟩
        obtain ⟨e, he, rfl⟩ := List.mem_map.1 hk
        have := (hn.bounds e he).2
        show (UInt32.ofNat (s.registered + 1)).toNat > _
        omega
  | unregister inst =>
    simp only [RegistrySpec.perform]
    split_ifs
    · refine ⟨fun e he => hn.bounds e (List.mem_of_mem_eraseP he), ?_⟩
      exact hn.decreasing.sublist (List.eraseP_sublist.map _)
    · exact hn
  | findById => exact hn
  | findByName name moduleInfo => cases name <;> cases moduleInfo <;> exact hn
  | count => exact hn

/-- The registration that brings the counter back to 0 links a record under that id. -/
theorem not_identified_of_wraps {u : LinkedRegistry × List RegistryResult} {results : List RegistryResult}
    (h : Represents r s) (hop : r.Allocates op) (hreg : op.registers = true) (hwraps : s.registered + 1 = 2 ^ 32)
    (hstep : registryStep (r, results) op = some u) : ¬ Identified u.1 := by
  cases op with
  | register malloc now name stackSize heapSize wasmModule moduleInst execEnv =>
    cases malloc with
    | none => cases hreg
    | some a =>
      cases hstep
      have hid : r.moduleIdCounter + 1 = 0 := by
        rw [h.counter]
        have hadd : UInt32.ofNat s.registered + 1 = .ofNat (s.registered + 1) := (UInt32.ofNat_add s.registered 1).symm
        rw [hadd, hwraps]
        rfl
      exact not_identified_of_zero rfl hop.1 (Function.update_self _ _ _) hid
  | _ => cases hreg

/-! ## Runs -/

/-- From a state before the counter has wrapped. -/
theorem along_identified_iff {ops : List RegistryOp} : ∀ {r : LinkedRegistry} {s : RegistrySpec}
    {results : List RegistryResult}, Represents r s → Numbered s → s.registered < 2 ^ 32 →
    Meets registryStep (fun s => s.1.Allocates) (r, results) ops →
    (Along registryStep (fun s => Identified s.1) (r, results) ops ↔
      s.registered + ops.countP RegistryOp.registers < 2 ^ 32) := by
  induction ops with
  | nil =>
    intro r s results h hn hlt _
    exact iff_of_true (identified_of_numbered h hn) hlt
  | cons op ops ih =>
    intro r s results h hn hlt hmeets
    obtain ⟨t, ht, hrep⟩ := represents_step h hmeets.1
    have hstep : registryStep (r, results) op = some (t, results ++ [(s.perform keptName op).2]) := by
      rw [registryStep, ht]
      rfl
    have hcount := registered_perform keptName s op
    rw [along_cons _ hstep, List.countP_cons]
    by_cases hnext : (s.perform keptName op).1.registered < 2 ^ 32
    -- the rest of the run starts before the counter has wrapped, too
    · rw [ih hrep (numbered_step keptName hn hnext) hnext ((meets_cons _ hstep).1 hmeets).2, hcount]
      constructor
      · rintro ⟨-, hle⟩
        omega
      · intro hle
        exact ⟨identified_of_numbered h hn, by omega⟩
    -- only a registration counts, so this one brings the counter to 2^32
    · have hreg : op.registers = true := by
        by_contra hreg
        rw [if_neg hreg] at hcount
        omega
      rw [hreg] at hcount ⊢
      simp only [if_true] at hcount ⊢
      refine iff_of_false (fun hlong => ?_) (by omega)
      exact not_identified_of_wraps h hmeets.1 hreg (by omega) hstep hlong.2.head

/-- Through a run of operations the ids tell the records apart exactly if fewer than 2^32 registrations succeed
in it. -/
theorem identified_iff (ops : List RegistryOp)
    (h : Meets registryStep (fun s => s.1.Allocates) (.start, []) ops) :
    Along registryStep (fun s => Identified s.1) (.start, []) ops ↔ ops.countP RegistryOp.registers < 2 ^ 32 := by
  rw [along_identified_iff represents_start numbered_start (by decide) h]
  show 0 + _ < _ ↔ _
  rw [Nat.zero_add]

/-- Three registrations, with the first module running to the end. -/
def longRunning : List RegistryOp :=
  [.register (some 0x1000) 10 "demo".toList 2048 4096 0x100 0x200 0x300,
    .register (some 0x2000) 11 "other".toList 2048 4096 0x110 0x210 0x310, .unregister 0x210,
    .register (some 0x2000) 12 "other".toList 2048 4096 0x110 0x210 0x310]

theorem identified_longRunning : Along registryStep (fun s => Identified s.1) (.start, []) longRunning :=
  (identified_iff longRunning (by decide)).2 (by decide)

/-! ## The counter wraps -/

/-- A module is registered and unregistered `n` times, in the same memory. -/
def registeredTimes (n : ℕ) : List RegistryOp :=
  (List.replicate n [.register (some 0x1000) 10 "demo".toList 2048 4096 0x100 0x200 0x300, .unregister 0x200]).flatten

theorem registeredTimes_succ (n : ℕ) : registeredTimes (n + 1) =
    .register (some 0x1000) 10 "demo".toList 2048 4096 0x100 0x200 0x300 :: .unregister 0x200 :: registeredTimes n := by
  rw [registeredTimes, List.replicate_succ, List.flatten_cons]
  rfl

theorem countP_registeredTimes (n : ℕ) : (registeredTimes n).countP RegistryOp.registers = n := by
  induction n with
  | zero => rfl
  | succ n ih =>
    rw [registeredTimes_succ, List.countP_cons_of_pos (by decide), List.countP_cons_of_neg (by decide), ih]

/-- A record at the head is unlinked at once. -/
theorem unregister_head {node : Node} (hnull : r.moduleListHead ≠ null)
    (hnode : r.memory r.moduleListHead = some node) :
    r.unregisterWasmModule node.info.moduleInst =
      some (LinkedRegistry.free { r with moduleListHead := node.next } r.moduleListHead, 0) := by
  have hfuel : loopFuel = 4294967295 + 1 := rfl
  rw [LinkedRegistry.unregisterWasmModule, hfuel, LinkedRegistry.unregisterLoop, if_neg hnull, hnode,
    Option.bind_some, if_pos rfl, if_neg (not_not_intro rfl)]

/-- A module that is unregistered right after its registration leaves the list as it was. -/
theorem unregister_register {a : Addr} (ha : a ≠ null) (now : Int64) (name : CString) (stackSize heapSize : Int32)
    (wasmModule inst execEnv : Addr) :
    (r.registerWasmModule (some a) now name stackSize heapSize wasmModule inst execEnv).1.unregisterWasmModule inst =
      some (⟨Function.update r.memory a none, r.moduleListHead, r.moduleIdCounter + 1⟩, 0) := by
  let info : WasmModuleInfo :=
    ⟨r.moduleIdCounter + 1, name.take (nameSize - 1), stackSize, heapSize, now, wasmModule, inst, execEnv⟩
  have hhead := unregister_head
    (r := ⟨Function.update r.memory a (some ⟨info, r.moduleListHead⟩), a, r.moduleIdCounter + 1⟩) ha
    (Function.update_self a _ r.memory)
  simp only [LinkedRegistry.free, Function.update_idem] at hhead
  exact hhead

/-- Each round leaves the memory free for the next. -/
theorem meets_registeredTimes (n : ℕ) : ∀ {r : LinkedRegistry} {results : List RegistryResult},
    r.memory 0x1000 = none → Meets registryStep (fun s => s.1.Allocates) (r, results) (registeredTimes n) := by
  induction n with
  | zero => exact fun {r results} _ => trivial
  | succ n ih =>
    intro r results hmem
    have hregister : registryStep (r, results)
        (.register (some 0x1000) 10 "demo".toList 2048 4096 0x100 0x200 0x300) =
          some ((r.registerWasmModule (some 0x1000) 10 "demo".toList 2048 4096 0x100 0x200 0x300).1,
            results ++ [.record 0x1000]) := rfl
    have hunregister := unregister_register (r := r) (a := 0x1000) (by decide) 10 "demo".toList 2048 4096 0x100 0x200
      0x300
    have hstep : registryStep ((r.registerWasmModule (some 0x1000) 10 "demo".toList 2048 4096 0x100 0x200 0x300).1,
        results ++ [.record 0x1000]) (.unregister 0x200) = some (⟨Function.update r.memory 0x1000 none,
          r.moduleListHead, r.moduleIdCounter + 1⟩, results ++ [.record 0x1000] ++ [.status 0]) := by
      rw [registryStep, LinkedRegistry.perform, hunregister]
      rfl
    rw [registeredTimes_succ, meets_cons _ hregister, meets_cons _ hstep]
    exact ⟨⟨by decide, by decide, hmem⟩, trivial, ih (Function.update_self (0x1000 : Addr) none r.memory)⟩

theorem wrapped_ids_not_identified : ¬ ∀ ops : List RegistryOp,
    Meets registryStep (fun s => s.1.Allocates) (.start, []) ops →
    Along registryStep (fun s => Identified s.1) (.start, []) ops := by
  intro h
  have hmeets : Meets registryStep (fun s => s.1.Allocates) (.start, []) (registeredTimes (2 ^ 32)) :=
    meets_registeredTimes (2 ^ 32) rfl
  have hlt := (along_identified_iff represents_start numbered_start (by decide) hmeets).1 (h _ hmeets)
  rw [countP_registeredTimes] at hlt
  exact absurd hlt (by decide)

end VelaWasm.Lwac
